import SmartPlanner.PlannerSearch

/-!
The allocation phase and the whole of `build_preview`. The invariant of the
phase accounts for every minute of the tasks already visited: it is placed in a
block or listed as unscheduled.
-/

namespace SmartPlanner

open Intervals Outcome Sorting

/-- What is missing of a task's duration, if anything. -/
def shortfall (blocks : List PlanBlock) (task : TaskRecord) : Option (UUID × Int) :=
  let used := minutesOf (blocksOf blocks task.id)
  if used < task.durationMinutes then some (task.id, task.durationMinutes - used) else none

/-- The shortfall depends only on the blocks of the task. -/
theorem shortfall_congr {xs ys : List PlanBlock} {task : TaskRecord}
    (h : blocksOf xs task.id = blocksOf ys task.id) : shortfall xs task = shortfall ys task := by
  simp only [shortfall, h]

theorem blocksOf_perm {xs ys : List PlanBlock} (h : xs.Perm ys) (taskId : UUID) :
    (blocksOf xs taskId).Perm (blocksOf ys taskId) :=
  h.filter _

theorem shortfall_perm {xs ys : List PlanBlock} (h : xs.Perm ys) (task : TaskRecord) :
    shortfall xs task = shortfall ys task := by
  simp only [shortfall, minutesOf_perm (blocksOf_perm h task.id)]

theorem UnscheduledTask.make_ok {taskId : UUID} {title : String} {remaining : Int}
    {reason : UnscheduledReason} {message : String} {entry : UnscheduledTask} :
    UnscheduledTask.make taskId title remaining reason message = .ok entry ↔
      1 ≤ remaining ∧ entry = ⟨taskId, title, remaining, reason, message⟩ := by
  unfold UnscheduledTask.make
  split
  · next h => simp [h, eq_comm]
  · next h => simp [h]

/-- The task id and the minutes of an unscheduled entry. -/
def UnscheduledTask.amount (entry : UnscheduledTask) : UUID × Int :=
  (entry.taskId, entry.remainingMinutes)

namespace Planner
variable {p : Planner}

/-- The invariant of the allocation loop after some tasks. -/
structure Allocated (p : Planner) (done : List TaskRecord) (state : PlannerState) : Prop where
  sound : p.Sound state
  count : state.blocks.length ≤ maxBlocks
  share : ∀ task ∈ p.pending, ShareOk task (blocksOf state.blocks task.id)
  locks_kept : ∀ task ∈ p.pending, ∀ block ∈ p.locks task, block ∈ state.blocks
  accounted : state.unscheduled.map (·.amount) = done.filterMap (shortfall state.blocks)

theorem allocated_start (grid : p.Grid) {budget : Int} {state : PlannerState}
    (h : p.preservePrevious (p.initial budget) = .ok state) : p.Allocated [] state := by
  obtain ⟨locksOk, inv⟩ := preservePrevious_preserved grid h
  exact ⟨inv.sound, inv.length_le, fun task ht => inv.shareOk locksOk ht, inv.locks_kept,
    by simp [inv.same]⟩

/-- Adding the pieces that complete one task. -/
theorem Allocated.complete (grid : p.Grid) {done : List TaskRecord} {state : PlannerState}
    (inv : p.Allocated done state) (visited : ∀ other ∈ done, other ∈ p.pending)
    {task : TaskRecord} (ht : task ∈ p.pending) (fresh : task ∉ done)
    {pieces : List PlanBlock}
    (missing : task.durationMinutes - minutesOf (blocksOf state.blocks task.id) ≠ 0)
    (ok : p.PiecesOk task (task.durationMinutes - minutesOf (blocksOf state.blocks task.id))
      state.busy pieces 0)
    (cap : state.blocks.length + pieces.length ≤ maxBlocks) :
    p.Allocated (done ++ [task]) (pieces.foldl p.reserve state) := by
  have own : blocksOf (pieces.foldl p.reserve state).blocks task.id =
      blocksOf state.blocks task.id ++ pieces := by
    rw [foldl_reserve, blocksOf_append, @blocksOf_eq_self pieces]
    exact fun block hb => (ok.fits block hb).1
  have foreign : ∀ other ∈ p.pending, other ≠ task →
      blocksOf (pieces.foldl p.reserve state).blocks other.id =
        blocksOf state.blocks other.id := by
    intro other ho hne
    rw [foldl_reserve, blocksOf_append, @blocksOf_eq_nil pieces, List.append_nil]
    intro block hb hid
    exact hne (grid.pending_unique ho ht (hid.symm.trans (ok.fits block hb).1))
  refine ⟨?_, ?_, ?_, ?_, ?_⟩
  · apply inv.sound.reserveAll
    · intro block hb
      obtain ⟨hid, fits⟩ := ok.fits block hb
      exact ⟨task, ht, hid.symm, fits⟩
    · refine List.pairwise_append.mpr ⟨inv.sound.apart, ok.apart, fun a ha b hb => ?_⟩
      have hbusy : p.indices a.toTimeWindow ∈ state.busy := by
        rw [inv.sound.busy_eq]
        exact List.mem_append_right _ (List.mem_map_of_mem ha)
      exact ((indices_apart grid).mp (ok.free b hb _ hbusy)).symm
  · simpa [foldl_reserve] using cap
  · intro other ho
    by_cases hot : other = task
    · subst hot
      have hmin := ok.minutes_eq
      rw [own]
      refine ⟨by simp only [minutesOf_append]; omega, fun hs _ => ?_⟩
      have hnone : blocksOf state.blocks other.id = [] := by
        by_contra hne
        have := ((inv.share other ho).2 hs hne).2
        omega
      rw [hnone] at hmin missing ⊢
      simp only [minutesOf_nil, List.nil_append] at hmin missing ⊢
      rcases ok.single hs with rfl | ⟨hone, -⟩
      · simp only [minutesOf_nil] at hmin
        omega
      · exact ⟨hone, by omega⟩
    · rw [foreign other ho hot]
      exact inv.share other ho
  · intro other ho block hb
    rw [foldl_reserve]
    exact List.mem_append_left _ (inv.locks_kept other ho block hb)
  · have hmin := ok.minutes_eq
    have hself : [task].filterMap (shortfall (pieces.foldl p.reserve state).blocks) = [] := by
      simp only [List.filterMap_cons, List.filterMap_nil, shortfall, own, minutesOf_append]
      rw [if_neg (by omega)]
    have hothers : done.filterMap (shortfall (pieces.foldl p.reserve state).blocks) =
        done.filterMap (shortfall state.blocks) := by
      refine List.filterMap_congr fun other ho => ?_
      apply shortfall_congr
      exact foreign other (visited other ho) (by rintro rfl; exact fresh ho)
    rw [List.filterMap_append, hothers, hself, ← inv.accounted, List.append_nil, foldl_reserve]

theorem Allocated.step (grid : p.Grid) {done : List TaskRecord} {state state' : PlannerState}
    (inv : p.Allocated done state) (visited : ∀ other ∈ done, other ∈ p.pending)
    {task : TaskRecord} (ht : task ∈ p.pending) (fresh : task ∉ done)
    (h : p.allocateTask state task = .ok state') : p.Allocated (done ++ [task]) state' := by
  have placed : placedMinutes state task.id = minutesOf (blocksOf state.blocks task.id) := rfl
  have hshare := (inv.share task ht).1
  unfold allocateTask at h
  simp only [placed] at h
  split at h
  · next hzero =>
      cases h
      have hself : shortfall state.blocks task = none := by
        simp only [shortfall]
        rw [if_neg (by omega)]
      refine ⟨inv.sound, inv.count, inv.share, inv.locks_kept, ?_⟩
      rw [List.filterMap_append, ← inv.accounted]
      simp [hself]
  · next missing =>
      rw [bind_ok] at h
      obtain ⟨placement, hplace, h⟩ := h
      obtain ⟨pieces, hadd, ok, cap⟩ := placePieces_ok grid (by omega)
        (inv.sound.busy_nonempty grid) hplace
      rw [List.nil_append] at hadd
      split at h
      · next hdone =>
          cases h
          rw [hdone] at ok
          rw [hadd] at cap ⊢
          have budgeted : p.Allocated done { state with budget := placement.budget } :=
            ⟨⟨inv.sound.busy_eq, inv.sound.placed, inv.sound.apart⟩, inv.count, inv.share,
              inv.locks_kept, inv.accounted⟩
          exact budgeted.complete grid visited ht fresh missing ok
            (cap (by simpa using inv.count))
      · next hleft =>
          simp only [bind_ok, UnscheduledTask.make_ok] at h
          obtain ⟨entry, ⟨hpos, rfl⟩, h⟩ := h
          cases h
          have hself : shortfall state.blocks task = some (task.id,
              task.durationMinutes - minutesOf (blocksOf state.blocks task.id)) := by
            simp only [shortfall]
            rw [if_pos (by omega)]
          refine ⟨⟨inv.sound.busy_eq, inv.sound.placed, inv.sound.apart⟩, inv.count,
            inv.share, inv.locks_kept, ?_⟩
          rw [List.filterMap_append, ← inv.accounted]
          simp [hself, UnscheduledTask.amount]

theorem allocateTask_total (grid : p.Grid) {done : List TaskRecord} {state : PlannerState}
    (inv : p.Allocated done state) {task : TaskRecord} (ht : task ∈ p.pending) :
    ∃ state', p.allocateTask state task = .ok state' := by
  have placed : placedMinutes state task.id = minutesOf (blocksOf state.blocks task.id) := rfl
  have hshare := (inv.share task ht).1
  unfold allocateTask
  simp only [placed]
  split
  · exact ⟨_, rfl⟩
  · next missing =>
      obtain ⟨placement, hplace⟩ := placePieces_total grid task state.blocks.length
        (task.durationMinutes - minutesOf (blocksOf state.blocks task.id)).toNat
        (task.durationMinutes - minutesOf (blocksOf state.blocks task.id))
        [] state.busy (state.blocks.map fun block => p.indices block.toTimeWindow)
        state.budget (by omega)
      rw [hplace, ok_bind]
      split
      · exact ⟨_, rfl⟩
      · rw [UnscheduledTask.make_ok.mpr ⟨by omega, rfl⟩]
        exact ⟨_, rfl⟩

/-- Both phases together. -/
theorem phases_allocated (grid : p.Grid) {budget : Int} {state state' : PlannerState}
    (hpreserve : p.preservePrevious (p.initial budget) = .ok state)
    (hallocate : p.ordered.foldlM p.allocateTask state = .ok state') :
    p.Allocated p.ordered state' := by
  refine foldlM_inits (p.Allocated) (allocated_start grid hpreserve) ?_ hallocate
  intro before task after state state' hsplit inv hstep
  obtain ⟨visited, ht, fresh⟩ := grid.ordered_split hsplit
  exact inv.step grid visited ht fresh hstep

/-- The allocation phase never raises. -/
theorem allocation_total (grid : p.Grid) {budget : Int} {state : PlannerState}
    (hpreserve : p.preservePrevious (p.initial budget) = .ok state) :
    ∃ state', p.ordered.foldlM p.allocateTask state = .ok state' := by
  obtain ⟨state', hallocate, -⟩ := foldlM_total (f := p.allocateTask) (p.Allocated)
    (allocated_start grid hpreserve) (by
      intro before task after state hsplit inv
      obtain ⟨visited, ht, fresh⟩ := grid.ordered_split hsplit
      obtain ⟨state', hstep⟩ := allocateTask_total grid inv ht
      exact ⟨state', hstep, inv.step grid visited ht fresh hstep⟩)
  exact ⟨state', hallocate⟩

end Planner

section
variable {zoneInfo : String → Zone} {request : PreviewRequest} {tasks : List TaskRecord}
  {preferences : PreferenceValues} {timezoneName : String} {now : Int}
  {preferenceVersion : Nat} {searchBudget : Int}

/-- What a returned preview was computed from. -/
theorem buildPreview_ok {preview : PlanPreview}
    (h : buildPreview zoneInfo request tasks preferences timezoneName now preferenceVersion
      searchBudget = .ok preview) :
    ∃ (p : Planner) (state : PlannerState),
      Planner.init request tasks preferences (zoneInfo timezoneName) now = .ok p ∧
      p.LocksOk ∧ p.Allocated p.ordered state ∧
      preview.horizon.start = p.start ∧ preview.horizon.stop = p.stop ∧
      preview.blocks = sortBlocks state.blocks ∧
      preview.fixedEvents = sortEvents request.fixedEvents ∧
      preview.unscheduled = state.unscheduled ∧
      preview.ignoredTaskIds = p.ignoredTaskIds ∧
      preview.taskVersions = p.taskVersions ∧
      preview.preferenceVersion = preferenceVersion := by
  unfold buildPreview at h
  simp only [bind_ok, pure_eq_ok, Except.ok.injEq] at h
  obtain ⟨p, hinit, state, hpreserve, state', hallocate, horizon, hhorizon, rfl⟩ := h
  have grid := Planner.init_grid hinit
  obtain ⟨hstart, hstop⟩ := TimeWindow.make_ok.mp hhorizon
  exact ⟨p, state', hinit, (Planner.preservePrevious_preserved grid hpreserve).1,
    Planner.phases_allocated grid hpreserve hallocate, hstart, hstop, rfl, rfl, rfl, rfl,
    rfl, rfl⟩

/-- A preview is returned whenever the constructor and the lock phase accept and
the horizon is representable. -/
theorem buildPreview_total {p : Planner}
    (hinit : Planner.init request tasks preferences (zoneInfo timezoneName) now = .ok p)
    (locksOk : p.LocksOk) (horizon : WindowValid p.start p.stop) :
    ∃ preview, buildPreview zoneInfo request tasks preferences timezoneName now
      preferenceVersion searchBudget = .ok preview := by
  have grid := Planner.init_grid hinit
  obtain ⟨state, hpreserve⟩ := Planner.preservePrevious_total grid searchBudget locksOk
  obtain ⟨state', hallocate⟩ := Planner.allocation_total grid hpreserve
  have hhorizon : TimeWindow.make p.start p.stop = .ok ⟨p.start, p.stop, horizon⟩ :=
    TimeWindow.make_ok.mpr ⟨rfl, rfl⟩
  unfold buildPreview
  rw [hinit, ok_bind, hpreserve, ok_bind, hallocate, ok_bind, hhorizon]
  exact ⟨_, rfl⟩

end

end SmartPlanner
