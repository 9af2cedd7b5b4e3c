import SmartPlanner.LayoutInspection
import SmartPlanner.MinimalDisruption

/-!
A preview planned again from its own blocks. The second run finds every
complete task preserved and every other task still without room, so that both
runs end with the same blocks, although they reserve them in different orders
and the second run may spend its budget elsewhere.
-/

namespace SmartPlanner

open Intervals Outcome Sorting

namespace Planner
variable {p : Planner}

/-- The same planner with other previous blocks. -/
def withPrevious (p : Planner) (blocks : List PlanBlock)
    (valid : blocks.length ≤ 512 ∧ ∀ block ∈ blocks, block.taskId ∈ p.request.taskIds) :
    Planner :=
  { p with request := ⟨p.request.toPlanningWindow, blocks, valid⟩ }

/-- Previous blocks play no part in the constructor. -/
theorem init_withPrevious {request : PreviewRequest} {tasks : List TaskRecord}
    {preferences : PreferenceValues} {zone : Zone} {now : Int}
    (h : Planner.init request tasks preferences zone now = .ok p) {blocks : List PlanBlock}
    (valid : blocks.length ≤ 512 ∧ ∀ block ∈ blocks, block.taskId ∈ p.request.taskIds)
    (valid' : blocks.length ≤ 512 ∧ ∀ block ∈ blocks, block.taskId ∈ request.taskIds) :
    Planner.init ⟨request.toPlanningWindow, blocks, valid'⟩ tasks preferences zone now =
      .ok (p.withPrevious blocks valid) := by
  obtain ⟨hdate, horizon, snapshot, opened, events, available, hopen, hevents, rfl⟩ :=
    init_ok.mp h
  exact init_ok.mpr ⟨hdate, horizon, snapshot, opened, events, available, hopen, hevents, rfl⟩

/-- A task after its round: complete, or left with its locks and listed because
the budget ran out or there was no room. -/
def Settled (p : Planner) (state : PlannerState) (task : TaskRecord) : Prop :=
  minutesOf (blocksOf state.blocks task.id) = task.durationMinutes ∨
  (blocksOf state.blocks task.id = p.locks task ∧ ∃ entry ∈ state.unscheduled,
    entry.reason = .searchLimit ∨
      p.NoRoom task (task.durationMinutes - minutesOf (blocksOf state.blocks task.id)) state.busy)

/-- Between the rounds an unvisited task is complete or holds its locks alone. -/
def Waiting (p : Planner) (state : PlannerState) (task : TaskRecord) : Prop :=
  minutesOf (blocksOf state.blocks task.id) = task.durationMinutes ∨
  blocksOf state.blocks task.id = p.locks task

theorem Preserved.waiting {done : List TaskRecord} {state : PlannerState}
    (inv : p.Preserved done state) {task : TaskRecord} (ht : task ∈ p.pending) :
    p.Waiting state task := by
  rcases inv.held task ht with h | ⟨h, total, -⟩
  · exact Or.inr h
  · left
    rw [h, minutesOf_perm (locks_append_movable_perm task), total]

/-- A round settles its own task and leaves the others as they are. -/
theorem Allocated.round_settled (grid : p.Grid) {done : List TaskRecord}
    {state state' : PlannerState} (inv : p.Allocated done state) {task : TaskRecord}
    (ht : task ∈ p.pending) (h : p.allocateTask state task = .ok state') :
    (p.Waiting state task → p.Settled state' task) ∧
    ∀ other ∈ p.pending, other ≠ task →
      (p.Waiting state other → p.Waiting state' other) ∧
      (p.Settled state other → p.Settled state' other) := by
  rcases inv.round grid ht h with ⟨complete, rfl⟩ | ⟨missing, pieces, budget, rfl, ok, -⟩ |
      ⟨missing, entry, budget, rfl, reason⟩
  · exact ⟨fun _ => Or.inl complete, fun other _ _ => ⟨id, id⟩⟩
  · rw [foldl_reserve]
    refine ⟨fun _ => Or.inl ?_, fun other ho hot => ?_⟩
    · have hmin := ok.minutes_eq
      change minutesOf (blocksOf (state.blocks ++ pieces) task.id) = task.durationMinutes
      rw [blocksOf_append, blocksOf_eq_self fun block hb => (ok.fits block hb).1,
        minutesOf_append]
      omega
    · have same : blocksOf (state.blocks ++ pieces) other.id = blocksOf state.blocks other.id := by
        rw [blocksOf_append, @blocksOf_eq_nil pieces, List.append_nil]
        intro block hb hid
        exact hot (grid.pending_unique ho ht (hid.symm.trans (ok.fits block hb).1))
      unfold Waiting Settled
      simp only [same]
      refine ⟨id, Or.imp_right ?_⟩
      rintro ⟨hlocks, listed, hlisted, reason⟩
      refine ⟨hlocks, listed, hlisted, reason.imp_right fun noRoom => ?_⟩
      exact noRoom.mono grid (List.subset_append_left _ _)
  · refine ⟨fun waiting => Or.inr ⟨waiting.resolve_left missing, entry, ?_, reason⟩,
      fun other _ _ => ⟨id, Or.imp_right ?_⟩⟩
    · exact List.mem_append_right _ List.mem_cons_self
    · rintro ⟨hlocks, listed, hlisted, reason⟩
      exact ⟨hlocks, listed, List.mem_append_left _ hlisted, reason⟩

/-- Both phases settle every pending task. -/
theorem phases_settled (grid : p.Grid) {budget : Int} {state state' : PlannerState}
    (hpreserve : p.preservePrevious (p.initial budget) = .ok state)
    (hallocate : p.ordered.foldlM p.allocateTask state = .ok state') :
    ∀ task ∈ p.pending, p.Settled state' task := by
  obtain ⟨-, preserved⟩ := preservePrevious_preserved grid hpreserve
  have final := foldlM_inits (fun done next => p.Allocated done next ∧
      (∀ task ∈ p.pending, task ∉ done → p.Waiting next task) ∧
      ∀ task ∈ done, p.Settled next task)
    ⟨allocated_start grid hpreserve, fun task ht _ => preserved.waiting ht, by simp⟩
    (by
      rintro before task after next next' hsplit ⟨inv, waiting, settled⟩ hstep
      obtain ⟨visited, ht, fresh⟩ := grid.ordered_split hsplit
      obtain ⟨own, others⟩ := inv.round_settled grid ht hstep
      refine ⟨inv.step grid visited ht fresh hstep, fun other ho hnew => ?_, fun other ho => ?_⟩
      · rw [List.mem_append, not_or, List.mem_singleton] at hnew
        exact (others other ho hnew.2).1 (waiting other ho hnew.1)
      · rcases List.mem_append.mp ho with hbefore | hlast
        · refine (others other (visited other hbefore) ?_).2 (settled other hbefore)
          rintro rfl
          exact fresh hbefore
        · rw [List.mem_singleton.mp hlast]
          exact own (waiting task ht fresh))
    hallocate
  exact fun task ht => final.2.2 task (mem_ordered.mpr ht)

/-! The second run, from the blocks the first one ended with. -/

section
variable {done : List TaskRecord} {state : PlannerState} {blocks : List PlanBlock}
  {valid : blocks.length ≤ 512 ∧ ∀ block ∈ blocks, block.taskId ∈ p.request.taskIds}

theorem previous_withPrevious {task : TaskRecord} (ht : task ∈ p.pending) :
    (p.withPrevious blocks valid).previous task.id = blocksOf blocks task.id := by
  refine List.filter_congr fun block _ => decide_eq_decide.mpr ?_
  exact ⟨fun h => h.1, fun hid => ⟨hid, task, ht, hid.symm⟩⟩

theorem locksOk_withPrevious (grid : p.Grid) (again : (p.withPrevious blocks valid).Grid)
    (inv : p.Allocated done state) (perm : blocks.Perm state.blocks) :
    (p.withPrevious blocks valid).LocksOk := by
  refine (locksOk_iff again).mpr ⟨fun task ht => ?_, ?_⟩
  · have share : ShareOk task (blocksOf blocks task.id) :=
      (inv.share task ht).perm (blocksOf_perm perm.symm task.id)
    refine ⟨share.sublist List.filter_sublist, fun block hb => ?_⟩
    obtain ⟨hin, hid⟩ := mem_blocksOf.mp (List.mem_filter.mp hb).1
    obtain ⟨other, ho, heq, fits⟩ := inv.sound.placed block (perm.mem_iff.mp hin)
    have same := grid.pending_unique ho ht (heq.trans hid)
    exact same ▸ fits
  · exact (inv.sound.apart.perm perm.symm).sublist List.filter_sublist

/-- Complete tasks are preserved, and the others hold nothing but locks. -/
theorem preserve_withPrevious (grid : p.Grid) (again : (p.withPrevious blocks valid).Grid)
    (inv : p.Allocated done state) (perm : blocks.Perm state.blocks)
    (waiting : ∀ task ∈ p.pending, p.Waiting state task) {budget : Int} {next : PlannerState}
    (hpreserve : (p.withPrevious blocks valid).preservePrevious
      ((p.withPrevious blocks valid).initial budget) = .ok next) :
    next.blocks.Perm state.blocks := by
  obtain ⟨-, preserved⟩ := preservePrevious_preserved again hpreserve
  have apart : PairwiseApart blocks := inv.sound.apart.perm perm.symm
  have own : ∀ task ∈ p.pending,
      (blocksOf next.blocks task.id).Perm (blocksOf state.blocks task.id) := by
    intro task ht
    have previous_eq := @previous_withPrevious p blocks valid task ht
    have minutes_eq : minutesOf ((p.withPrevious blocks valid).previous task.id) =
        minutesOf (blocksOf state.blocks task.id) := by
      rw [previous_eq, minutesOf_perm (blocksOf_perm perm task.id)]
    have share := inv.share task ht
    have hpos := task.duration_pos
    refine List.Perm.trans ?_ (blocksOf_perm perm task.id)
    by_cases complete : minutesOf (blocksOf state.blocks task.id) = task.durationMinutes
    · rw [preservePrevious_restored again hpreserve ht apart (minutes_eq.trans complete)]
      · exact (locks_append_movable_perm task).trans (.of_eq previous_eq)
      · intro hs
        rw [previous_eq, (blocksOf_perm perm task.id).length_eq]
        refine (share.2 hs ?_).1
        intro hnil
        rw [hnil, minutesOf_nil] at complete
        omega
      · intro block hb
        rw [previous_eq] at hb
        obtain ⟨hin, hid⟩ := mem_blocksOf.mp hb
        obtain ⟨other, ho, heq, fits⟩ := inv.sound.placed block (perm.mem_iff.mp hin)
        have same := grid.pending_unique ho ht (heq.trans hid)
        exact same ▸ fits
    · have locked : ∀ block ∈ blocksOf blocks task.id, block.locked = true := by
        intro block hb
        have hmem := (blocksOf_perm perm task.id).mem_iff.mp hb
        rw [(waiting task ht).resolve_left complete] at hmem
        exact (mem_locks.mp hmem).2
      rcases preserved.held task ht with h | ⟨-, total, -⟩
      · rw [h]
        refine (sortBy_perm _ _).trans (.of_eq ?_)
        rw [previous_eq]
        exact List.filter_eq_self.mpr locked
      · exact absurd (minutes_eq.symm.trans total) complete
  refine (List.perm_ext_iff_of_nodup preserved.sound.apart.nodup inv.sound.apart.nodup).mpr
    fun block => ⟨fun hb => ?_, fun hb => ?_⟩
  · obtain ⟨task, ht, hid, -⟩ := preserved.sound.placed block hb
    exact (mem_blocksOf.mp ((own task ht).mem_iff.mp (mem_blocksOf.mpr ⟨hb, hid.symm⟩))).1
  · obtain ⟨task, ht, hid, -⟩ := inv.sound.placed block hb
    exact (mem_blocksOf.mp ((own task ht).mem_iff.mpr (mem_blocksOf.mpr ⟨hb, hid.symm⟩))).1

end

/-- A loop over complete tasks and tasks without room places nothing. -/
theorem allocation_settled (grid : p.Grid) {budget : Int} {state state' : PlannerState}
    (hpreserve : p.preservePrevious (p.initial budget) = .ok state)
    (hallocate : p.ordered.foldlM p.allocateTask state = .ok state')
    (settled : ∀ task ∈ p.pending,
      minutesOf (blocksOf state.blocks task.id) = task.durationMinutes ∨
      p.NoRoom task (task.durationMinutes - minutesOf (blocksOf state.blocks task.id))
        state.busy) :
    state'.blocks = state.blocks ∧ state'.busy = state.busy := by
  refine (foldlM_inits (fun done next => p.Allocated done next ∧
    next.blocks = state.blocks ∧ next.busy = state.busy)
    ⟨allocated_start grid hpreserve, rfl, rfl⟩ ?_ hallocate).2
  rintro before task after next next' hsplit ⟨inv, hblocks, hbusy⟩ hstep
  obtain ⟨visited, ht, fresh⟩ := grid.ordered_split hsplit
  refine ⟨inv.step grid visited ht fresh hstep, ?_⟩
  rcases inv.round grid ht hstep with ⟨-, rfl⟩ | ⟨missing, pieces, budget, -, -, room⟩ |
      ⟨-, entry, budget, rfl, -⟩
  · exact ⟨hblocks, hbusy⟩
  · rw [hblocks] at missing room
    rw [hbusy] at room
    exact absurd ((settled task ht).resolve_left missing) room
  · exact ⟨hblocks, hbusy⟩

/-- The usage of the days is a sum over the intervals. -/
theorem usage_perm {xs ys : List Interval} (perm : xs.Perm ys) : p.usage xs = p.usage ys := by
  unfold usage
  exact List.map_congr_left fun range _ => (perm.map _).sum_eq

/-- Warnings do not depend on the order of the reservations. -/
theorem warnings_perm {xs ys : PlannerState} (blocks : xs.blocks.Perm ys.blocks)
    (busy : xs.busy.Perm ys.busy) : p.warnings xs = p.warnings ys := by
  have chronological : sortBy toLex xs.busy = sortBy toLex ys.busy :=
    sortBy_eq_of_perm busy fun a _ b _ h => toLex_inj.mp h
  have used := usage_perm (p := p) (blocks.map fun block => p.indices block.toTimeWindow)
  have placed : ∀ task : TaskRecord, xs.blocks.any (fun block => block.taskId = task.id) =
      ys.blocks.any (fun block => block.taskId = task.id) := by
    intro task
    rw [Bool.eq_iff_iff, List.any_eq_true, List.any_eq_true]
    exact exists_congr fun block => and_congr_left fun _ => blocks.mem_iff
  unfold warnings
  simp only [chronological, used, placed]

end Planner

/-- Disjoint blocks are listed in one order only. -/
theorem sortBlocks_perm {xs ys : List PlanBlock} (perm : xs.Perm ys) (apart : PairwiseApart xs) :
    sortBlocks xs = sortBlocks ys := by
  refine sortBy_eq_of_perm perm fun a ha b hb hkey => ?_
  simp only [toLex_inj, Prod.mk.injEq] at hkey
  refine (apart.eq_or_apart ha hb).resolve_right fun hab => ?_
  have hpos := a.windowValid.2.2
  have hpos' := b.windowValid.2.2
  unfold TimeWindow.Apart at hab
  omega

/-- Planning a preview again from its own blocks reproduces it, unless the search
was cut off. -/
theorem buildPreview_idempotent {zoneInfo : String → Zone} {request : PreviewRequest}
    {tasks : List TaskRecord} {preferences : PreferenceValues} {timezoneName : String}
    {now : Int} {preferenceVersion : Nat} {searchBudget : Int} {preview : PlanPreview}
    (h : buildPreview zoneInfo request tasks preferences timezoneName now preferenceVersion
      searchBudget = .ok preview)
    (unlimited : ∀ entry ∈ preview.unscheduled, entry.reason ≠ .searchLimit) :
    ∃ request' again, PreviewRequest.make request.toPlanningWindow preview.blocks = .ok request' ∧
      buildPreview zoneInfo request' tasks preferences timezoneName now preferenceVersion
        searchBudget = .ok again ∧
      again.blocks = preview.blocks ∧ again.warnings = preview.warnings ∧
      again.ignoredTaskIds = preview.ignoredTaskIds ∧
      again.unscheduled.map (fun entry => (entry.taskId, entry.remainingMinutes)) =
        preview.unscheduled.map (fun entry => (entry.taskId, entry.remainingMinutes)) := by
  unfold buildPreview at h
  simp only [bind_ok, pure_eq_ok, Except.ok.injEq] at h
  obtain ⟨p, hinit, state₀, hpreserve, state, hallocate, horizon, hhorizon, rfl⟩ := h
  have grid := Planner.init_grid hinit
  obtain ⟨hrequest, -⟩ := Planner.init_fields hinit
  have inv := Planner.phases_allocated grid hpreserve hallocate
  have settled := Planner.phases_settled grid hpreserve hallocate
  have perm : (sortBlocks state.blocks).Perm state.blocks := sortBy_perm _ _
  have valid : (sortBlocks state.blocks).length ≤ 512 ∧
      ∀ block ∈ sortBlocks state.blocks, block.taskId ∈ p.request.taskIds := by
    refine ⟨perm.length_eq ▸ inv.count, fun block hb => ?_⟩
    obtain ⟨task, ht, hid, -⟩ := inv.sound.placed block (perm.mem_iff.mp hb)
    rw [← hid]
    exact grid.snapshot.2.1 task (Planner.mem_pending.mp ht).1
  have valid' : (sortBlocks state.blocks).length ≤ 512 ∧
      ∀ block ∈ sortBlocks state.blocks, block.taskId ∈ request.taskIds := hrequest ▸ valid
  have hagain := Planner.init_withPrevious hinit valid valid'
  have grid' := Planner.init_grid hagain
  -- the second run succeeds
  have locksOk := Planner.locksOk_withPrevious grid grid' inv perm
  obtain ⟨next₀, hpreserve'⟩ := Planner.preservePrevious_total grid' searchBudget locksOk
  have windowValid : WindowValid p.start p.stop := by
    obtain ⟨hstart, hstop⟩ := TimeWindow.make_ok.mp hhorizon
    rw [← hstart, ← hstop]
    exact horizon.windowValid
  obtain ⟨next, hallocate'⟩ := Planner.allocation_total grid' hpreserve'
  -- and reserves the same blocks
  have same : next₀.blocks.Perm state.blocks :=
    Planner.preserve_withPrevious grid grid' inv perm
      (fun task ht => (settled task ht).imp_right And.left) hpreserve'
  have inv₀ := Planner.allocated_start grid' hpreserve'
  have busy : next₀.busy.Perm state.busy := by
    rw [inv₀.sound.busy_eq, inv.sound.busy_eq]
    exact (same.map _).append_left _
  have minutes : ∀ task : TaskRecord, minutesOf (blocksOf next₀.blocks task.id) =
      minutesOf (blocksOf state.blocks task.id) :=
    fun task => minutesOf_perm (blocksOf_perm same task.id)
  obtain ⟨hblocks, hbusy⟩ := Planner.allocation_settled grid' hpreserve' hallocate' (by
    intro task ht
    rw [minutes task]
    refine (settled task ht).imp_right ?_
    rintro ⟨-, entry, hentry, reason⟩
    exact (reason.resolve_left (unlimited entry hentry)).mono grid busy.symm.subset)
  have inv' := Planner.phases_allocated grid' hpreserve' hallocate'
  have final : next.blocks.Perm state.blocks := hblocks ▸ same
  refine ⟨⟨request.toPlanningWindow, sortBlocks state.blocks, valid'⟩,
    { horizon, timezone := timezoneName, plannedAt := p.now, blocks := sortBlocks next.blocks
      fixedEvents := sortEvents request.fixedEvents, unscheduled := next.unscheduled
      ignoredTaskIds := p.ignoredTaskIds, taskVersions := p.taskVersions, preferenceVersion
      warnings := p.warnings next },
    PreviewRequest.make_ok.mpr ⟨rfl, rfl⟩, ?_, ?_, ?_, rfl, ?_⟩
  · unfold buildPreview
    rw [hagain, ok_bind, hpreserve', ok_bind, hallocate', ok_bind]
    change (TimeWindow.make p.start p.stop >>= _) = _
    rw [hhorizon]
    rfl
  · exact sortBlocks_perm final inv'.sound.apart
  · exact Planner.warnings_perm final (hbusy ▸ busy)
  · change next.unscheduled.map (·.amount) = state.unscheduled.map (·.amount)
    rw [inv'.accounted, inv.accounted]
    exact List.filterMap_congr fun task _ => shortfall_perm final task

/-- The preview of the lecture day, planned again. -/
theorem buildPreview_idempotent_lecture :
    ∃ preview request' again, buildPreview (fun _ => Zone.utc) lectureRequest [essay, reading]
        PreferenceValues.default "UTC" (lectureTime 480) 1 250000 = .ok preview ∧
      PreviewRequest.make lectureRequest.toPlanningWindow preview.blocks = .ok request' ∧
      buildPreview (fun _ => Zone.utc) request' [essay, reading]
        PreferenceValues.default "UTC" (lectureTime 480) 1 250000 = .ok again ∧
      again.blocks = preview.blocks := by
  have returned : okAnd (buildPreview (fun _ => Zone.utc) lectureRequest [essay, reading]
      PreferenceValues.default "UTC" (lectureTime 480) 1 250000) (fun preview =>
        preview.unscheduled.all fun entry => decide (entry.reason ≠ .searchLimit)) = true := by
    decide +kernel
  obtain ⟨preview, h, hunlimited⟩ := exists_of_okAnd returned
  simp only [List.all_eq_true, decide_eq_true_eq] at hunlimited
  obtain ⟨request', again, hmake, hagain, hblocks, -⟩ := buildPreview_idempotent h hunlimited
  exact ⟨preview, request', again, h, hmake, hagain, hblocks⟩

end SmartPlanner
