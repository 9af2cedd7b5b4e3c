import SmartPlanner.PreviewIdempotent

/-!
The order in which a request lists its tasks, windows, events and blocks plays
no part in the preview: every loop of the planner runs in an order of its own,
and ties it does not break are conflicts.
-/

namespace SmartPlanner

open Intervals Outcome Sorting

/-- Requests that differ only in the order of their lists. -/
structure Reordered (request request' : PreviewRequest) : Prop where
  startDate : request'.startDate = request.startDate
  days : request'.days = request.days
  taskIds : request'.taskIds.Perm request.taskIds
  availability : request'.availability.Perm request.availability
  fixedEvents : request'.fixedEvents.Perm request.fixedEvents
  previousBlocks : request'.previousBlocks.Perm request.previousBlocks

/-- An event is determined by its sort key. -/
theorem sortEvents_perm {xs ys : List FixedEvent} (perm : xs.Perm ys) :
    sortEvents xs = sortEvents ys := by
  refine sortBy_eq_of_perm perm fun a _ b _ hkey => ?_
  simp only [toLex_inj, Prod.mk.injEq] at hkey
  rw [FixedEvent.mk.injEq, TimeWindow.mk.injEq]
  exact ⟨⟨hkey.1, hkey.2.1⟩, hkey.2.2⟩

/-- Opening two windows in either order. -/
theorem openWindows_perm {start size : Int} {xs ys : List TimeWindow} (perm : xs.Perm ys)
    (mask : Mask) : openWindows start size xs mask = openWindows start size ys mask := by
  induction perm generalizing mask with
  | nil => rfl
  | cons window _ ih =>
      simp only [openWindows]
      split
      · rfl
      · exact ih _
  | swap a b windows =>
      have swapped : (mask.fill (indicesFrom start b).1 (indicesFrom start b).2 true).fill
            (indicesFrom start a).1 (indicesFrom start a).2 true =
          (mask.fill (indicesFrom start a).1 (indicesFrom start a).2 true).fill
            (indicesFrom start b).1 (indicesFrom start b).2 true := by
        funext i
        rw [Bool.eq_iff_iff]
        simp only [Mask.fill_true_iff]
        tauto
      simp only [openWindows, swapped]
      split <;> split <;> rfl
  | trans _ _ ih₁ ih₂ => rw [ih₁, ih₂]

theorem snapshotMatches_perm {ids ids' : List UUID} {tasks tasks' : List TaskRecord}
    (hids : ids'.Perm ids) (htasks : tasks'.Perm tasks) :
    SnapshotMatches ids' tasks' ↔ SnapshotMatches ids tasks := by
  have keys := htasks.map (·.id)
  unfold SnapshotMatches
  simp only [keys.nodup_iff, htasks.mem_iff, hids.mem_iff, keys.mem_iff]

theorem min?_perm {xs ys : List Int} (perm : xs.Perm ys) : xs.min? = ys.min? := by
  cases hx : xs.min? with
  | none =>
      rw [List.min?_eq_none_iff] at hx
      subst hx
      rw [List.nil_perm.mp perm]
      rfl
  | some least =>
      rw [List.min?_eq_some_iff] at hx
      refine (List.min?_eq_some_iff.mpr ⟨perm.mem_iff.mp hx.1, fun b hb => ?_⟩).symm
      exact hx.2 b (perm.mem_iff.mpr hb)

namespace Planner
variable {p : Planner}

/-- The same planner with its lists in another order. -/
def reorder (p : Planner) (request : PreviewRequest) (tasks : List TaskRecord) : Planner :=
  { p with request := request, tasks := tasks }

theorem assemble_reorder {request request' : PreviewRequest} (tasks tasks' : List TaskRecord)
    (preferences : PreferenceValues) (zone : Zone) (now : Int) (events : List Interval)
    (available : Mask) (startDate : request'.startDate = request.startDate)
    (days : request'.days = request.days) :
    assemble request' tasks' preferences zone now events available =
      (assemble request tasks preferences zone now events available).reorder request' tasks' := by
  unfold assemble
  rw [startDate, days]
  rfl

/-- The constructor of the reordered planner raises the same error or computes
the same fields. -/
theorem init_reorder {request request' : PreviewRequest} {tasks tasks' : List TaskRecord}
    (preferences : PreferenceValues) (zone : Zone) (now : Int)
    (reordered : Reordered request request') (perm : tasks'.Perm tasks) :
    Planner.init request' tasks' preferences zone now =
      (Planner.init request tasks preferences zone now).map fun p => p.reorder request' tasks' := by
  have windows := fun start size mask =>
    @openWindows_perm start size _ _ reordered.availability mask
  have fields := fun events available => assemble_reorder tasks tasks' preferences zone now events
    available reordered.startDate reordered.days
  unfold Planner.init
  rw [reordered.startDate, reordered.days, sortEvents_perm reordered.fixedEvents]
  simp only [windows, snapshotMatches_perm reordered.taskIds perm, fields, map_bind, pure_eq_ok,
    map_ok]

/-- The arguments of the reordered planner. -/
structure SameInputs (p : Planner) (request : PreviewRequest) (tasks : List TaskRecord) :
    Prop where
  request : Reordered p.request request
  tasks : tasks.Perm p.tasks

section
variable {request : PreviewRequest} {tasks : List TaskRecord}

theorem SameInputs.pending (same : p.SameInputs request tasks) :
    (p.reorder request tasks).pending.Perm p.pending :=
  same.tasks.filter _

theorem SameInputs.previous (same : p.SameInputs request tasks) (taskId : UUID) :
    ((p.reorder request tasks).previous taskId).Perm (p.previous taskId) := by
  refine (same.request.previousBlocks.filter _).trans (.of_eq ?_)
  refine List.filter_congr fun block _ => decide_eq_decide.mpr (and_congr_right fun _ => ?_)
  exact exists_congr fun task => and_congr_left fun _ => same.pending.mem_iff

theorem SameInputs.previousStart (same : p.SameInputs request tasks) (taskId : UUID) :
    (p.reorder request tasks).previousStart taskId = p.previousStart taskId :=
  min?_perm ((same.previous taskId).map _)

theorem SameInputs.ordered (grid : p.Grid) (same : p.SameInputs request tasks) :
    (p.reorder request tasks).ordered = p.ordered := by
  refine (sortBy_eq_of_perm same.pending.symm fun a ha b hb hkey => ?_).symm
  simp only [order, toLex_inj, Prod.mk.injEq] at hkey
  exact grid.pending_unique ha hb hkey.2.2

theorem SameInputs.previousTasks (grid : p.Grid) (same : p.SameInputs request tasks) :
    (p.reorder request tasks).previousTasks = p.previousTasks := by
  have kept : (p.reorder request tasks).pending.filter (fun task =>
        (p.reorder request tasks).previous task.id ≠ []) =
      (p.reorder request tasks).pending.filter fun task => p.previous task.id ≠ [] := by
    refine List.filter_congr fun task _ => decide_eq_decide.mpr (not_congr ?_)
    exact ⟨fun h => List.nil_perm.mp (h ▸ same.previous task.id),
      fun h => List.perm_nil.mp (h ▸ same.previous task.id)⟩
  unfold Planner.previousTasks
  rw [kept]
  refine (sortBy_eq_of_perm (same.pending.filter _).symm fun a ha b hb hkey => ?_).symm
  exact grid.pending_unique (List.mem_of_mem_filter ha) (List.mem_of_mem_filter hb) hkey

theorem SameInputs.ignoredTaskIds (same : p.SameInputs request tasks) :
    (p.reorder request tasks).ignoredTaskIds = p.ignoredTaskIds :=
  sortBy_eq_of_perm ((same.tasks.filter _).map _) fun _ _ _ _ h => h

theorem SameInputs.taskVersions (grid : p.Grid) (same : p.SameInputs request tasks) :
    (p.reorder request tasks).taskVersions = p.taskVersions := by
  refine (sortBy_eq_of_perm (same.tasks.map _).symm fun a ha b hb hkey => ?_).symm
  obtain ⟨task, ht, rfl⟩ := List.mem_map.mp ha
  obtain ⟨other, ho, rfl⟩ := List.mem_map.mp hb
  rw [List.inj_on_of_nodup_map grid.snapshot.1 ht ho hkey]

theorem SameInputs.warnings (same : p.SameInputs request tasks) (state : PlannerState) :
    (p.reorder request tasks).warnings state = p.warnings state := by
  have any : ∀ f : TaskRecord → Bool, (p.reorder request tasks).pending.any f =
      p.pending.any f := by
    intro f
    rw [Bool.eq_iff_iff, List.any_eq_true, List.any_eq_true]
    exact exists_congr fun task => and_congr_left fun _ => same.pending.mem_iff
  unfold Planner.warnings
  rw [any]
  rfl

/-! The loops of `preserve_previous`. -/

theorem SameInputs.locks (same : p.SameInputs request tasks) (task : TaskRecord) :
    ((p.reorder request tasks).locks task).Perm (p.locks task) :=
  (sortBy_perm _ _).trans (((same.previous task.id).filter _).trans (sortBy_perm _ _).symm)

theorem SameInputs.movable (same : p.SameInputs request tasks) (task : TaskRecord) :
    ((p.reorder request tasks).movable task).Perm (p.movable task) :=
  (sortBy_perm _ _).trans (((same.previous task.id).filter _).trans (sortBy_perm _ _).symm)

/-- Blocks that are apart are sorted by their starts in one way. -/
theorem sortBy_start_perm {xs ys : List PlanBlock} (perm : xs.Perm ys) (apart : PairwiseApart ys) :
    sortBy (fun block : PlanBlock => block.start) xs = sortBy (fun block => block.start) ys := by
  refine sortBy_eq_of_perm perm fun a ha b hb hkey => ?_
  refine (apart.eq_or_apart (perm.mem_iff.mp ha) (perm.mem_iff.mp hb)).resolve_right fun hab => ?_
  have hpos := a.windowValid.2.2
  have hpos' := b.windowValid.2.2
  unfold TimeWindow.Apart at hab
  omega

theorem SameInputs.locks_eq (same : p.SameInputs request tasks) {task : TaskRecord}
    (apart : PairwiseApart (p.locks task)) :
    (p.reorder request tasks).locks task = p.locks task :=
  sortBy_start_perm ((same.previous task.id).filter _) (apart.perm (sortBy_perm _ _))

theorem SameInputs.movable_eq (same : p.SameInputs request tasks) {task : TaskRecord}
    (apart : PairwiseApart (p.movable task)) :
    (p.reorder request tasks).movable task = p.movable task :=
  sortBy_start_perm ((same.previous task.id).filter _) (apart.perm (sortBy_perm _ _))

/-- The lock loop of one task raises nothing but a conflict. -/
theorem reserveLocks_error {task : TaskRecord} {blocks : List PlanBlock} {state : PlannerState}
    {error : PyError} (h : p.reserveLocks task blocks state = .error error) :
    error = .app .lockedBlockConflict := by
  induction blocks generalizing state with
  | nil => simp [reserveLocks] at h
  | cons block blocks ih =>
      simp only [reserveLocks] at h
      split at h
      · exact ih h
      · cases h
        rfl

theorem reserveLocks_reorder (task : TaskRecord) (blocks : List PlanBlock) (state : PlannerState) :
    (p.reorder request tasks).reserveLocks task blocks state =
      p.reserveLocks task blocks state := by
  induction blocks generalizing state with
  | nil => rfl
  | cons block blocks ih =>
      simp only [reserveLocks, ih]
      rfl

theorem movableFits_reorder (task : TaskRecord) (blocks : List PlanBlock) (mask : Mask) :
    (p.reorder request tasks).movableFits task blocks mask = p.movableFits task blocks mask := by
  induction blocks generalizing mask with
  | nil => rfl
  | cons block blocks ih =>
      simp only [movableFits, ih]
      rfl

/-- Locks of one task that start together are a conflict in either order. -/
theorem SameInputs.preserveLocks (grid : p.Grid) (same : p.SameInputs request tasks)
    {state : PlannerState} (sound : p.Sound state) {task : TaskRecord} (ht : task ∈ p.pending) :
    (p.reorder request tasks).preserveLocks state task = p.preserveLocks state task := by
  have perm := same.locks task
  have nonempty : (p.reorder request tasks).locks task ≠ [] ↔ p.locks task ≠ [] := by
    refine not_congr ⟨fun h => List.nil_perm.mp (h ▸ perm), fun h => List.perm_nil.mp (h ▸ perm)⟩
  have reserved : (p.reorder request tasks).reserveLocks task
        ((p.reorder request tasks).locks task) state =
      p.reserveLocks task (p.locks task) state := by
    rw [reserveLocks_reorder]
    by_cases apart : PairwiseApart (p.locks task)
    · rw [same.locks_eq apart]
    · have refused : ∀ blocks : List PlanBlock, (∀ block ∈ blocks, block.taskId = task.id) →
          ¬ PairwiseApart blocks →
          p.reserveLocks task blocks state = .error (.app .lockedBlockConflict) := by
        intro blocks own hblocks
        cases h : p.reserveLocks task blocks state with
        | error error => rw [reserveLocks_error h]
        | ok next =>
            obtain ⟨-, happart, -⟩ := (reserveLocks_ok grid ht own sound).mp h
            exact absurd (List.pairwise_append.mp happart).2.1 hblocks
      rw [refused _ (fun block => locks_taskId) fun h => apart (h.perm perm),
        refused _ (fun block => locks_taskId) apart]
  unfold Planner.preserveLocks
  rw [reserved]
  simp only [minutesOf_perm perm, perm.length_eq, nonempty]

theorem SameInputs.preserveMovable (grid : p.Grid) (same : p.SameInputs request tasks)
    (state : PlannerState) (task : TaskRecord) :
    (p.reorder request tasks).preserveMovable state task = p.preserveMovable state task := by
  have perm := same.movable task
  have fits : (p.reorder request tasks).movableFits task
        ((p.reorder request tasks).movable task) (p.freeMask state.busy 0) =
      p.movableFits task (p.movable task) (p.freeMask state.busy 0) := by
    rw [movableFits_reorder, Bool.eq_iff_iff, movableFits_iff grid, movableFits_iff grid]
    simp only [perm.mem_iff]
    exact and_congr_right fun _ => ⟨fun h => h.perm perm, fun h => h.perm perm.symm⟩
  unfold Planner.preserveMovable
  simp only [minutesOf_perm (same.previous task.id), (same.previous task.id).length_eq]
  split
  · rfl
  · change (if (p.reorder request tasks).movableFits task
        ((p.reorder request tasks).movable task) (p.freeMask state.busy 0) = true then _ else _) = _
    rw [fits]
    split
    · next hfits =>
        rw [same.movable_eq ((movableFits_iff grid).mp hfits).2]
        rfl
    · rfl

theorem SameInputs.preservePrevious (grid : p.Grid) (same : p.SameInputs request tasks)
    (budget : Int) :
    (p.reorder request tasks).preservePrevious ((p.reorder request tasks).initial budget) =
      p.preservePrevious (p.initial budget) := by
  have locks : p.previousTasks.foldlM (p.reorder request tasks).preserveLocks (p.initial budget) =
      p.previousTasks.foldlM p.preserveLocks (p.initial budget) := by
    symm
    refine foldlM_congr p.Sound (sound_initial p budget) (fun task ht state sound => ?_)
      fun task ht state next sound h => ?_
    · exact (same.preserveLocks grid sound (mem_previousTasks.mp ht).1).symm
    · have hp := (mem_previousTasks.mp ht).1
      obtain ⟨-, fits, apart, rfl⟩ := (preserveLocks_ok grid hp sound).mp h
      exact sound.reserveAll
        (fun block hb => ⟨task, hp, (locks_taskId hb).symm, fits block hb⟩) apart
  have movable : (p.reorder request tasks).preserveMovable = p.preserveMovable :=
    funext₂ (same.preserveMovable grid)
  unfold Planner.preservePrevious
  rw [same.previousTasks grid, same.ordered grid, movable]
  change (p.previousTasks.foldlM (p.reorder request tasks).preserveLocks (p.initial budget) >>=
    _) = _
  rw [locks]

/-! The allocation loop. -/

theorem SameInputs.score (same : p.SameInputs request tasks) (task : TaskRecord)
    (start length : Int) (used : List Int) :
    (p.reorder request tasks).score task start length used = p.score task start length used := by
  unfold Planner.score
  rw [same.previousStart]
  rfl

theorem SameInputs.findSlot (same : p.SameInputs request tasks) (task : TaskRecord)
    (remaining : Int) (busy : List Interval) (used : List Int) (budget : Int) :
    (p.reorder request tasks).findSlot task remaining busy used budget =
      p.findSlot task remaining busy used budget := by
  have pass : ∀ pause budget, (p.reorder request tasks).searchPause task remaining busy used pause
      budget = p.searchPause task remaining busy used pause budget := by
    intro pause budget
    unfold Planner.searchPause
    simp only [same.score]
    rfl
  have loop : ∀ pauses budget, (p.reorder request tasks).findSlotLoop task remaining busy used
      pauses budget = p.findSlotLoop task remaining busy used pauses budget := by
    intro pauses
    induction pauses with
    | nil => exact fun _ => rfl
    | cons pause pauses ih =>
        intro budget
        simp only [findSlotLoop, pass, ih]
  exact loop p.pauses budget

theorem SameInputs.placePieces (same : p.SameInputs request tasks) (task : TaskRecord)
    (placedBlocks fuel : Nat) (remaining : Int) (additions : List PlanBlock)
    (busy intervals : List Interval) (budget : Int) :
    (p.reorder request tasks).placePieces task placedBlocks fuel remaining additions busy intervals
        budget =
      p.placePieces task placedBlocks fuel remaining additions busy intervals budget := by
  induction fuel generalizing remaining additions busy intervals budget with
  | zero => rfl
  | succ fuel ih =>
      simp only [Planner.placePieces, same.findSlot, ih]
      rfl

theorem SameInputs.allocateTask (same : p.SameInputs request tasks) :
    (p.reorder request tasks).allocateTask = p.allocateTask := by
  funext state task
  unfold Planner.allocateTask
  simp only [same.placePieces]
  rfl

end

end Planner

/-- Two requests that list the same things in different orders raise the same
error or get the same preview. -/
theorem buildPreview_reordered (zoneInfo : String → Zone) {request request' : PreviewRequest}
    (reordered : Reordered request request') {tasks tasks' : List TaskRecord}
    (perm : tasks'.Perm tasks) (preferences : PreferenceValues) (timezoneName : String)
    (now : Int) (preferenceVersion : Nat) (searchBudget : Int) :
    buildPreview zoneInfo request' tasks' preferences timezoneName now preferenceVersion
        searchBudget =
      buildPreview zoneInfo request tasks preferences timezoneName now preferenceVersion
        searchBudget := by
  unfold buildPreview
  rw [Planner.init_reorder preferences (zoneInfo timezoneName) now reordered perm,
    sortEvents_perm reordered.fixedEvents]
  cases hinit : Planner.init request tasks preferences (zoneInfo timezoneName) now with
  | error error => rfl
  | ok p =>
      have grid := Planner.init_grid hinit
      obtain ⟨hrequest, -, -, -, htasks, -, -⟩ := Planner.init_fields hinit
      have same : p.SameInputs request' tasks' := ⟨hrequest ▸ reordered, htasks ▸ perm⟩
      simp only [map_ok, ok_bind, same.preservePrevious grid, same.ordered grid,
        same.allocateTask, same.ignoredTaskIds, same.taskVersions grid, same.warnings]
      rfl

/-- The lecture day with its two tasks named the other way round. -/
def lectureReversed : PreviewRequest where
  startDate := lectureDay
  days := 1
  taskIds := [2, 1]
  availability := [lectureOpening]
  fixedEvents := [lecture]
  previousBlocks := [⟨lectureFirstHour, 1, true⟩]
  planningValid := by decide
  previousValid := by decide

theorem buildPreview_reordered_lecture :
    buildPreview (fun _ => Zone.utc) lectureReversed [reading, essay] PreferenceValues.default
        "UTC" (lectureTime 480) 1 250000 =
      buildPreview (fun _ => Zone.utc) lectureRequest [essay, reading] PreferenceValues.default
        "UTC" (lectureTime 480) 1 250000 := by
  have reordered : Reordered lectureRequest lectureReversed :=
    ⟨rfl, rfl, .swap 1 2 [], .refl _, .refl _, .refl _⟩
  exact buildPreview_reordered _ reordered (.swap essay reading []) _ _ _ _ _

end SmartPlanner
