import SmartPlanner.PlannerRoom
import SmartPlanner.PreviewSound

/-!
Placements that still suit the present request survive a new preview. No lock,
no movable block and no later allocation of another task can displace them,
since everything preserved comes from the same disjoint previous layout.
-/

namespace SmartPlanner

open Intervals Outcome Sorting

/-- The previous blocks of a task make up its duration and suit the present
request one by one. -/
structure StillValid (request : PreviewRequest) (now : Int) (task : TaskRecord) : Prop where
  total : minutesOf (blocksOf request.previousBlocks task.id) = task.durationMinutes
  single : task.splittable = false → (blocksOf request.previousBlocks task.id).length = 1
  available : ∀ block ∈ blocksOf request.previousBlocks task.id, ∀ t,
    block.toTimeWindow.Contains t → ∃ slot ∈ request.availability, slot.Contains t
  apartEvents : ∀ block ∈ blocksOf request.previousBlocks task.id,
    ∀ event ∈ request.fixedEvents, block.toTimeWindow.Apart event.toTimeWindow
  notPast : ∀ block ∈ blocksOf request.previousBlocks task.id, now ≤ block.start
  afterEarliest : ∀ block ∈ blocksOf request.previousBlocks task.id,
    ∀ earliest ∈ task.earliestStart, earliest ≤ block.start
  beforeDeadline : ∀ block ∈ blocksOf request.previousBlocks task.id,
    ∀ deadline ∈ task.deadline, block.stop ≤ deadline

/-- Blocks that are apart are the same block or disjoint. -/
theorem PairwiseApart.eq_or_apart {blocks : List PlanBlock} (h : PairwiseApart blocks)
    {a b : PlanBlock} (ha : a ∈ blocks) (hb : b ∈ blocks) :
    a = b ∨ a.toTimeWindow.Apart b.toTimeWindow := by
  have same : blocks.Pairwise fun a b => a = b ∨ a.toTimeWindow.Apart b.toTimeWindow :=
    h.imp Or.inr
  have flipped : blocks.Pairwise fun b a => a = b ∨ a.toTimeWindow.Apart b.toTimeWindow :=
    h.imp fun hab => Or.inr hab.symm
  refine same.forall_of_forall_of_flip ?_ flipped ha hb
  exact fun _ _ => Or.inl rfl

namespace Planner
variable {p : Planner}

/-- The availability lies inside the horizon, so nothing covered by it leaves
the horizon. -/
theorem Grid.inside_of_available (grid : p.Grid) {block : TimeWindow}
    (covered : ∀ t, block.Contains t → ∃ slot ∈ p.request.availability, slot.Contains t) :
    p.start ≤ block.start ∧ block.stop ≤ p.stop := by
  have hlt := block.windowValid.2.2
  have within : ∀ slot ∈ p.request.availability, p.start ≤ slot.start ∧ slot.stop ≤ p.stop := by
    intro slot hslot
    have hin := grid.windows_inside slot hslot
    have h₁ := indices_fst grid slot
    have h₂ := indices_snd grid slot
    have hstop := grid.stop_eq
    unfold minute at h₁ h₂ hstop
    omega
  obtain ⟨first, hfirst, hstart, -⟩ := covered block.start ⟨le_refl _, hlt⟩
  obtain ⟨last, hlast, -, hend⟩ := covered (block.stop - 1) ⟨by omega, by omega⟩
  have := within first hfirst
  have := within last hlast
  omega

/-- A round of the movable loop changes no other task. -/
theorem blocksOf_preserveMovable {state : PlannerState} {task : TaskRecord} {taskId : UUID}
    (hne : task.id ≠ taskId) :
    blocksOf (p.preserveMovable state task).blocks taskId = blocksOf state.blocks taskId := by
  unfold preserveMovable
  simp only
  split
  · rfl
  · split
    · rw [foldl_reserve, blocksOf_append, @blocksOf_eq_nil (p.movable task), List.append_nil]
      intro block hb hid
      exact hne ((movable_taskId hb).symm.trans hid)
    · rfl

/-- A task whose previous blocks all fit gets its movable blocks back. -/
theorem Preserved.restored (grid : p.Grid) {done : List TaskRecord} {state : PlannerState}
    (inv : p.Preserved done state) {task : TaskRecord} (ht : task ∈ p.pending)
    (fresh : task ∉ done) (apart : PairwiseApart p.request.previousBlocks)
    (total : minutesOf (p.previous task.id) = task.durationMinutes)
    (single : task.splittable = false → (p.previous task.id).length = 1)
    (fits : ∀ block ∈ p.previous task.id, p.Fits task block.toTimeWindow) :
    blocksOf (p.preserveMovable state task).blocks task.id = p.locks task ++ p.movable task := by
  have previous_mem : ∀ block ∈ p.movable task, block ∈ p.request.previousBlocks :=
    fun block hb => ((mem_previous ht).mp (mem_movable.mp hb).1).1
  have hfits : p.movableFits task (p.movable task) (p.freeMask state.busy 0) = true := by
    refine (movableFits_iff grid).mpr ⟨fun block hb => ?_, ?_⟩
    · obtain ⟨hprev, hunlocked⟩ := mem_movable.mp hb
      refine (validBlock_sound grid inv.sound).mpr ⟨fits block hprev, fun other ho => ?_⟩
      rcases apart.eq_or_apart (previous_mem block hb) (inv.mem_previousBlocks ho) with rfl | h
      · -- a reserved block of this task is one of its locks
        have hown : block ∈ blocksOf state.blocks task.id :=
          mem_blocksOf.mpr ⟨ho, movable_taskId hb⟩
        rw [inv.untouched task ht fresh] at hown
        rw [(mem_locks.mp hown).2] at hunlocked
        contradiction
      · exact h
    · refine PairwiseApart.perm (sortBy_perm _ _).symm ?_
      exact apart.sublist (List.filter_sublist.trans List.filter_sublist)
  unfold preserveMovable
  simp only
  rw [if_neg, if_pos hfits, foldl_reserve, blocksOf_append, inv.untouched task ht fresh,
    blocksOf_eq_self fun block => movable_taskId]
  rintro (h | ⟨hs, h⟩)
  · exact h total
  · exact h (single hs)

/-- After both loops of `preserve_previous` such a task holds all its previous
blocks. -/
theorem preservePrevious_restored (grid : p.Grid) {budget : Int} {state : PlannerState}
    (h : p.preservePrevious (p.initial budget) = .ok state) {task : TaskRecord}
    (ht : task ∈ p.pending) (apart : PairwiseApart p.request.previousBlocks)
    (total : minutesOf (p.previous task.id) = task.durationMinutes)
    (single : task.splittable = false → (p.previous task.id).length = 1)
    (fits : ∀ block ∈ p.previous task.id, p.Fits task block.toTimeWindow) :
    blocksOf state.blocks task.id = p.locks task ++ p.movable task := by
  unfold preservePrevious at h
  simp only [bind_ok, pure_eq_ok, Except.ok.injEq] at h
  obtain ⟨locked, hlocks, rfl⟩ := h
  have loop : p.Preserved p.ordered (p.ordered.foldl p.preserveMovable locked) ∧
      (task ∈ p.ordered → blocksOf (p.ordered.foldl p.preserveMovable locked).blocks task.id =
        p.locks task ++ p.movable task) := by
    apply foldl_inits (fun done state => p.Preserved done state ∧
      (task ∈ done → blocksOf state.blocks task.id = p.locks task ++ p.movable task))
    · exact ⟨preserved_locks grid hlocks, by simp⟩
    · rintro before other after state hsplit ⟨inv, kept⟩
      obtain ⟨-, ho, fresh⟩ := grid.ordered_split hsplit
      refine ⟨inv.step grid ho fresh, fun hmem => ?_⟩
      by_cases hot : other = task
      · subst hot
        exact inv.restored grid ho fresh apart total single fits
      · rw [blocksOf_preserveMovable fun hid => hot (grid.pending_unique ho ht hid)]
        exact kept (by simpa [Ne.symm hot] using hmem)
  exact loop.2 (mem_ordered.mpr ht)

/-- A round of the allocation loop changes no complete task. -/
theorem Allocated.round_complete (grid : p.Grid) {done : List TaskRecord}
    {state state' : PlannerState} (inv : p.Allocated done state) {task other : TaskRecord}
    (ht : task ∈ p.pending) (ho : other ∈ p.pending)
    (complete : minutesOf (blocksOf state.blocks task.id) = task.durationMinutes)
    (h : p.allocateTask state other = .ok state') :
    blocksOf state'.blocks task.id = blocksOf state.blocks task.id := by
  rcases inv.round grid ho h with ⟨-, rfl⟩ | ⟨missing, pieces, budget, rfl, ok, -⟩ |
      ⟨-, entry, budget, rfl, -⟩
  · rfl
  · rw [foldl_reserve, blocksOf_append, @blocksOf_eq_nil pieces, List.append_nil]
    intro block hb hid
    have hot := grid.pending_unique ho ht ((ok.fits block hb).1.symm.trans hid)
    subst hot
    exact missing complete
  · rfl

/-- The allocation loop leaves a complete task alone. -/
theorem allocation_complete (grid : p.Grid) {budget : Int} {state state' : PlannerState}
    (hpreserve : p.preservePrevious (p.initial budget) = .ok state)
    (hallocate : p.ordered.foldlM p.allocateTask state = .ok state') {task : TaskRecord}
    (ht : task ∈ p.pending)
    (complete : minutesOf (blocksOf state.blocks task.id) = task.durationMinutes) :
    blocksOf state'.blocks task.id = blocksOf state.blocks task.id := by
  refine (foldlM_inits (fun done next => p.Allocated done next ∧
    blocksOf next.blocks task.id = blocksOf state.blocks task.id)
    ⟨allocated_start grid hpreserve, rfl⟩ ?_ hallocate).2
  rintro before other after next next' hsplit ⟨inv, same⟩ hstep
  obtain ⟨visited, ho, fresh⟩ := grid.ordered_split hsplit
  refine ⟨inv.step grid visited ho fresh hstep, ?_⟩
  rw [inv.round_complete grid ht ho (by rw [same, complete]) hstep, same]

end Planner

theorem buildPreview_keeps {zoneInfo : String → Zone} {request : PreviewRequest}
    {tasks : List TaskRecord} {preferences : PreferenceValues} {timezoneName : String}
    {now : Int} {preferenceVersion : Nat} {searchBudget : Int} {preview : PlanPreview}
    (apart : PairwiseApart request.previousBlocks)
    (h : buildPreview zoneInfo request tasks preferences timezoneName now preferenceVersion
      searchBudget = .ok preview)
    {task : TaskRecord} (ht : task ∈ tasks) (hpending : task.status = .pending)
    (valid : StillValid request now task) :
    (blocksOf preview.blocks task.id).Perm (blocksOf request.previousBlocks task.id) := by
  unfold buildPreview at h
  simp only [bind_ok, pure_eq_ok, Except.ok.injEq] at h
  obtain ⟨p, hinit, state, hpreserve, state', hallocate, horizon, -, rfl⟩ := h
  have grid := Planner.init_grid hinit
  obtain ⟨hrequest, -, -, hnow, htasks, -, -⟩ := Planner.init_fields hinit
  subst hrequest hnow htasks
  have hp := Planner.mem_pending.mpr ⟨ht, hpending⟩
  have previous_eq : p.previous task.id = blocksOf p.request.previousBlocks task.id := by
    refine List.filter_congr fun block _ => decide_eq_decide.mpr ?_
    exact ⟨fun h => h.1, fun hid => ⟨hid, task, hp, hid.symm⟩⟩
  have fits : ∀ block ∈ p.previous task.id, p.Fits task block.toTimeWindow := by
    intro block hb
    rw [previous_eq] at hb
    exact (Planner.fits_iff grid).mpr ⟨grid.inside_of_available (valid.available block hb),
      valid.notPast block hb, valid.afterEarliest block hb, valid.beforeDeadline block hb,
      valid.available block hb, valid.apartEvents block hb⟩
  have restored := Planner.preservePrevious_restored grid hpreserve hp apart
    (by rw [previous_eq]; exact valid.total) (by rw [previous_eq]; exact valid.single) fits
  have kept : (blocksOf state.blocks task.id).Perm (p.previous task.id) := by
    rw [restored]
    exact Planner.locks_append_movable_perm task
  have complete : minutesOf (blocksOf state.blocks task.id) = task.durationMinutes := by
    rw [minutesOf_perm kept, previous_eq, valid.total]
  have final : (blocksOf (sortBlocks state'.blocks) task.id).Perm
      (blocksOf state'.blocks task.id) :=
    blocksOf_perm (sortBy_perm _ _) _
  rw [Planner.allocation_complete grid hpreserve hallocate hp complete] at final
  rw [previous_eq] at kept
  exact final.trans kept

/-- The essay at nine, not locked, next to the reading that is still to be
placed. -/
def draftRequest : PreviewRequest where
  toPlanningWindow := lectureRequest.toPlanningWindow
  previousBlocks := [⟨lectureFirstHour, 1, false⟩]
  previousValid := by decide

theorem buildPreview_keeps_essay :
    ∃ preview, buildPreview (fun _ => Zone.utc) draftRequest [essay, reading]
        PreferenceValues.default "UTC" (lectureTime 480) 1 0 = .ok preview ∧
      blocksOf preview.blocks essay.id = [⟨lectureFirstHour, 1, false⟩] := by
  have returned : okAnd (buildPreview (fun _ => Zone.utc) draftRequest [essay, reading]
      PreferenceValues.default "UTC" (lectureTime 480) 1 0) (fun _ => true) = true := by
    decide +kernel
  obtain ⟨preview, h, -⟩ := exists_of_okAnd returned
  have own : blocksOf draftRequest.previousBlocks essay.id = [⟨lectureFirstHour, 1, false⟩] := by
    decide
  have valid : StillValid draftRequest (lectureTime 480) essay := by
    constructor <;> rw [own]
    · decide
    · decide
    · simp only [List.mem_singleton, forall_eq]
      intro t hin
      refine ⟨lectureOpening, List.mem_singleton_self _, ?_⟩
      have hlast : lectureFirstHour.stop ≤ lectureOpening.stop := by decide
      unfold TimeWindow.Contains at hin ⊢
      exact ⟨hin.1, by omega⟩
    · decide
    · decide
    · decide
    · decide
  have apart : PairwiseApart draftRequest.previousBlocks := List.pairwise_singleton _ _
  refine ⟨preview, h, ?_⟩
  have kept := buildPreview_keeps apart h (by decide) (by decide) valid
  rw [own] at kept
  exact List.perm_singleton.mp kept

end SmartPlanner
