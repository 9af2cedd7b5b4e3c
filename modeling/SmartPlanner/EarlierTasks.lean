import SmartPlanner.OrderIndependence

/-!
What a preview does with a task depends on the tasks ordered before it alone.
Later work, new or gone, moves nothing that comes before it, as long as the
previous blocks and the tasks they belong to stay.
-/

namespace SmartPlanner

open Intervals Outcome Sorting

/-- Requests for one horizon that differ only in their tasks. -/
structure SharedHorizon (request request' : PreviewRequest) : Prop where
  startDate : request'.startDate = request.startDate
  days : request'.days = request.days
  availability : request'.availability = request.availability
  fixedEvents : request'.fixedEvents = request.fixedEvents
  previousBlocks : request'.previousBlocks = request.previousBlocks

/-- `order(task)` for a horizon that ends there. -/
def TaskRecord.planKey (stop : Int) (task : TaskRecord) : Int ×ₗ Int ×ₗ Nat :=
  toLex (min (task.deadline.getD stop) stop, toLex (-task.priority, task.id))

/-- The previous blocks belong to tasks that are open in both snapshots or in
neither. -/
def SharedOwners (previous : List PlanBlock) (tasks tasks' : List TaskRecord) : Prop :=
  ∀ block ∈ previous, ∀ task : TaskRecord, task.status = .pending → task.id = block.taskId →
    (task ∈ tasks ↔ task ∈ tasks')

/-- The constructors differ in the snapshot check alone. -/
theorem Planner.init_shared {request request' : PreviewRequest} {tasks tasks' : List TaskRecord}
    (preferences : PreferenceValues) (zone : Zone) (now : Int)
    (shared : SharedHorizon request request') (snapshot : SnapshotMatches request.taskIds tasks)
    (snapshot' : SnapshotMatches request'.taskIds tasks') :
    Planner.init request' tasks' preferences zone now =
      (Planner.init request tasks preferences zone now).map fun p => p.reorder request' tasks' := by
  have fields := fun events available => assemble_reorder tasks tasks' preferences zone now events
    available shared.startDate shared.days
  unfold Planner.init
  rw [shared.startDate, shared.days, shared.availability, shared.fixedEvents]
  simp only [snapshot, snapshot', fields, map_bind, pure_eq_ok, map_ok]

namespace Planner
variable {p : Planner}

/-- The planner with other tasks and another request, where the previous blocks
of every task are the same. -/
structure Alike (p : Planner) (request : PreviewRequest) (tasks : List TaskRecord) : Prop where
  previous : ∀ taskId, (p.reorder request tasks).previous taskId = p.previous taskId

section
variable {request : PreviewRequest} {tasks : List TaskRecord} (alike : p.Alike request tasks)
include alike

theorem Alike.preserveLocks : (p.reorder request tasks).preserveLocks = p.preserveLocks := by
  have locks : ∀ task, (p.reorder request tasks).locks task = p.locks task := by
    intro task
    unfold Planner.locks
    rw [alike.previous]
  funext state task
  unfold Planner.preserveLocks
  simp only [locks, reserveLocks_reorder]

theorem Alike.preserveMovable : (p.reorder request tasks).preserveMovable = p.preserveMovable := by
  have movable : ∀ task, (p.reorder request tasks).movable task = p.movable task := by
    intro task
    unfold Planner.movable
    rw [alike.previous]
  funext state task
  unfold Planner.preserveMovable
  simp only [movable, alike.previous, movableFits_reorder]
  rfl

theorem Alike.score (task : TaskRecord) (start length : Int) (used : List Int) :
    (p.reorder request tasks).score task start length used = p.score task start length used := by
  unfold Planner.score Planner.previousStart
  rw [alike.previous]
  rfl

theorem Alike.findSlotLoop (task : TaskRecord) (remaining : Int) (busy : List Interval)
    (used pauses : List Int) (budget : Int) :
    (p.reorder request tasks).findSlotLoop task remaining busy used pauses budget =
      p.findSlotLoop task remaining busy used pauses budget := by
  have pass : ∀ pause budget, (p.reorder request tasks).searchPause task remaining busy used pause
      budget = p.searchPause task remaining busy used pause budget := by
    intro pause budget
    unfold Planner.searchPause
    simp only [alike.score]
    rfl
  induction pauses generalizing budget with
  | nil => rfl
  | cons pause pauses ih => simp only [Planner.findSlotLoop, pass, ih]

theorem Alike.placePieces (task : TaskRecord) (placedBlocks fuel : Nat) (remaining : Int)
    (additions : List PlanBlock) (busy intervals : List Interval) (budget : Int) :
    (p.reorder request tasks).placePieces task placedBlocks fuel remaining additions busy intervals
        budget =
      p.placePieces task placedBlocks fuel remaining additions busy intervals budget := by
  induction fuel generalizing remaining additions busy intervals budget with
  | zero => rfl
  | succ fuel ih =>
      simp only [Planner.placePieces, Planner.findSlot, alike.findSlotLoop, ih]
      rfl

theorem Alike.allocateTask : (p.reorder request tasks).allocateTask = p.allocateTask := by
  funext state task
  unfold Planner.allocateTask
  simp only [alike.placePieces]
  rfl

end

/-! The tasks that two planners have in common. -/

section
variable {request : PreviewRequest} {tasks : List TaskRecord}

theorem alike_of_shared (shared : SharedHorizon p.request request)
    (owners : SharedOwners p.request.previousBlocks p.tasks tasks) : p.Alike request tasks where
  previous taskId := by
    unfold Planner.previous Planner.reorder
    rw [shared.previousBlocks]
    refine List.filter_congr fun block hb => decide_eq_decide.mpr (and_congr_right fun _ => ?_)
    refine exists_congr fun task => and_congr_left fun hid => ?_
    unfold Planner.pending
    rw [List.mem_filter, List.mem_filter]
    exact and_congr_left fun hstatus =>
      (owners block hb task (of_decide_eq_true hstatus) hid).symm

/-- A part of the open tasks that both planners have. -/
theorem pending_filter_perm (grid : p.Grid) (grid' : (p.reorder request tasks).Grid)
    {part : TaskRecord → Bool}
    (common : ∀ task, task.status = .pending → part task = true →
      (task ∈ p.tasks ↔ task ∈ tasks)) :
    ((p.reorder request tasks).pending.filter part).Perm (p.pending.filter part) := by
  rw [List.perm_ext_iff_of_nodup ((List.Nodup.of_map _ grid'.pending_nodup).filter _)
    ((List.Nodup.of_map _ grid.pending_nodup).filter _)]
  intro task
  simp only [Planner.pending, Planner.reorder, List.mem_filter, decide_eq_true_eq]
  exact and_congr_left fun hpart => and_congr_left fun hstatus => (common task hstatus hpart).symm

theorem order_distinct (grid : p.Grid) : (p.pending.map p.order).Nodup := by
  rw [List.Nodup, List.pairwise_map]
  refine (List.pairwise_map.mp grid.pending_nodup).imp fun hne heq => hne ?_
  simp only [order, toLex_inj, Prod.mk.injEq] at heq
  exact heq.2.2

/-- It comes in one order. -/
theorem ordered_filter_eq (grid : p.Grid) (grid' : (p.reorder request tasks).Grid)
    {part : TaskRecord → Bool}
    (common : ∀ task, task.status = .pending → part task = true →
      (task ∈ p.tasks ↔ task ∈ tasks)) :
    (p.reorder request tasks).ordered.filter part = p.ordered.filter part := by
  unfold Planner.ordered
  rw [← sortBy_filter part (order_distinct grid), ← sortBy_filter part (order_distinct grid')]
  refine sortBy_eq_of_perm (pending_filter_perm grid grid' common) fun a ha b hb hkey => ?_
  simp only [order, toLex_inj, Prod.mk.injEq] at hkey
  exact grid'.pending_unique (List.mem_of_mem_filter ha) (List.mem_of_mem_filter hb) hkey.2.2

/-- A task without previous blocks keeps none. -/
theorem preserveMovable_of_nil {task : TaskRecord} (h : p.previous task.id = [])
    (state : PlannerState) : p.preserveMovable state task = state := by
  have hpos := task.duration_pos
  unfold Planner.preserveMovable
  rw [h]
  exact if_pos (Or.inl (by simp only [minutesOf_nil]; omega))

theorem foldl_preserveMovable (tasks : List TaskRecord) (state : PlannerState) :
    tasks.foldl p.preserveMovable state =
      (tasks.filter fun task => p.previous task.id ≠ []).foldl p.preserveMovable state := by
  induction tasks generalizing state with
  | nil => rfl
  | cons task tasks ih =>
      by_cases h : p.previous task.id = []
      · rw [List.foldl_cons, preserveMovable_of_nil h, ih]
        simp [h]
      · rw [List.foldl_cons, ih]
        simp [h]

theorem Alike.preservePrevious (alike : p.Alike request tasks) (grid : p.Grid)
    (grid' : (p.reorder request tasks).Grid)
    (owners : SharedOwners p.request.previousBlocks p.tasks tasks) (budget : Int) :
    (p.reorder request tasks).preservePrevious ((p.reorder request tasks).initial budget) =
      p.preservePrevious (p.initial budget) := by
  have held : ∀ task : TaskRecord, task.status = .pending → p.previous task.id ≠ [] →
      (task ∈ p.tasks ↔ task ∈ tasks) := by
    intro task hstatus hne
    obtain ⟨block, hb⟩ := List.exists_mem_of_ne_nil _ hne
    obtain ⟨hmem, hid⟩ := List.mem_filter.mp hb
    exact owners block hmem task hstatus (of_decide_eq_true hid).1.symm
  have common : ∀ task : TaskRecord, task.status = .pending →
      decide (p.previous task.id ≠ []) = true → (task ∈ p.tasks ↔ task ∈ tasks) :=
    fun task hstatus h => held task hstatus (of_decide_eq_true h)
  have visited : (p.reorder request tasks).previousTasks = p.previousTasks := by
    unfold Planner.previousTasks
    simp only [alike.previous]
    refine sortBy_eq_of_perm (pending_filter_perm grid grid' common) fun a ha b hb hkey => ?_
    exact grid'.pending_unique (List.mem_of_mem_filter ha) (List.mem_of_mem_filter hb) hkey
  have moved : ∀ state, (p.reorder request tasks).ordered.foldl p.preserveMovable state =
      p.ordered.foldl p.preserveMovable state := by
    intro state
    rw [foldl_preserveMovable, ordered_filter_eq grid grid' common, ← foldl_preserveMovable]
  unfold Planner.preservePrevious
  rw [visited, alike.preserveLocks, alike.preserveMovable]
  simp only [moved]
  rfl

/-! The rounds of other tasks. -/

theorem placePieces_own {task : TaskRecord} {placedBlocks fuel : Nat} {remaining : Int}
    {additions : List PlanBlock} {busy intervals : List Interval} {budget : Int}
    {placement : Placement}
    (h : p.placePieces task placedBlocks fuel remaining additions busy intervals budget =
      .ok placement) (own : ∀ block ∈ additions, block.taskId = task.id) :
    ∀ block ∈ placement.additions, block.taskId = task.id := by
  induction fuel generalizing remaining additions busy intervals budget with
  | zero =>
      rw [← Except.ok.inj h]
      exact own
  | succ fuel ih =>
      simp only [Planner.placePieces] at h
      split at h
      · rw [← Except.ok.inj h]
        exact own
      · split at h
        · rw [← Except.ok.inj h]
          exact own
        · split at h
          · rw [← Except.ok.inj h]
            exact own
          · rw [← Except.ok.inj h]
            exact own
          · split at h
            · contradiction
            · next block hmake =>
                refine ih h fun piece hpiece => ?_
                rcases List.mem_append.mp hpiece with hold | hnew
                · exact own piece hold
                · rw [List.mem_singleton.mp hnew]
                  exact (PlanBlock.make_ok hmake).2.2.1

/-- What a state says about one task. -/
def outcomeOf (state : PlannerState) (taskId : UUID) : List PlanBlock × List UnscheduledTask :=
  (blocksOf state.blocks taskId, state.unscheduled.filter (·.taskId = taskId))

theorem allocateTask_other {state state' : PlannerState} {other : TaskRecord} {taskId : UUID}
    (hne : other.id ≠ taskId) (h : p.allocateTask state other = .ok state') :
    outcomeOf state' taskId = outcomeOf state taskId := by
  unfold Planner.allocateTask at h
  simp only at h
  split at h
  · rw [← Except.ok.inj h]
  · rw [bind_ok] at h
    obtain ⟨placement, hplace, h⟩ := h
    have own := placePieces_own hplace (by simp)
    split at h
    · rw [← Except.ok.inj h, foldl_reserve]
      unfold outcomeOf
      rw [blocksOf_append, @blocksOf_eq_nil placement.additions, List.append_nil]
      exact fun block hb hid => hne ((own block hb).symm.trans hid)
    · simp only [bind_ok, UnscheduledTask.make_ok] at h
      obtain ⟨entry, ⟨-, rfl⟩, h⟩ := h
      rw [← Except.ok.inj h]
      unfold outcomeOf
      rw [List.filter_append]
      simp [hne]

theorem allocation_others {tasks : List TaskRecord} {state state' : PlannerState} {taskId : UUID}
    (others : ∀ other ∈ tasks, other.id ≠ taskId)
    (h : tasks.foldlM p.allocateTask state = .ok state') :
    outcomeOf state' taskId = outcomeOf state taskId :=
  foldlM_invariant (fun next => outcomeOf next taskId = outcomeOf state taskId) rfl
    (fun other ho _ _ same hstep => (allocateTask_other (others other ho) hstep).trans same) h

/-- The outcome of a task is settled once the tasks up to it are allocated. -/
theorem allocation_settles (grid : p.Grid) {task : TaskRecord} (ht : task ∈ p.pending)
    {state state' : PlannerState} (h : p.ordered.foldlM p.allocateTask state = .ok state') :
    ∃ settled, (p.ordered.filter fun other => p.order other ≤ p.order task).foldlM p.allocateTask
        state = .ok settled ∧ outcomeOf state' task.id = outcomeOf settled task.id := by
  have split := filter_le_append (sortBy_pairwise p.order p.pending) (p.order task)
  rw [show p.ordered = _ from split.symm, List.foldlM_append, bind_ok] at h
  obtain ⟨settled, hsettled, hrest⟩ := h
  refine ⟨settled, hsettled, allocation_others (fun other ho hid => ?_) hrest⟩
  obtain ⟨hmem, habove⟩ := List.mem_filter.mp ho
  have same := grid.pending_unique (mem_ordered.mp hmem) ht hid
  simp [same] at habove

end

/-- Tasks that follow in the order make no difference. -/
theorem Alike.outcome {request : PreviewRequest} {tasks : List TaskRecord}
    (alike : p.Alike request tasks) (grid : p.Grid) (grid' : (p.reorder request tasks).Grid)
    {state final final' : PlannerState}
    (h : p.ordered.foldlM p.allocateTask state = .ok final)
    (h' : (p.reorder request tasks).ordered.foldlM (p.reorder request tasks).allocateTask state =
      .ok final') {task : TaskRecord} (ht : task ∈ p.pending)
    (earlier : ∀ other : TaskRecord, other.status = .pending → p.order other ≤ p.order task →
      (other ∈ p.tasks ↔ other ∈ tasks)) :
    outcomeOf final' task.id = outcomeOf final task.id := by
  obtain ⟨hmem, hstatus⟩ := mem_pending.mp ht
  have ht' : task ∈ (p.reorder request tasks).pending :=
    mem_pending.mpr ⟨(earlier task hstatus le_rfl).mp hmem, hstatus⟩
  have prefixes : (p.reorder request tasks).ordered.filter
      (fun other => p.order other ≤ p.order task) =
      p.ordered.filter fun other => p.order other ≤ p.order task :=
    ordered_filter_eq grid grid' fun other hopen hle =>
      earlier other hopen (of_decide_eq_true hle)
  obtain ⟨settled, hsettled, same⟩ := allocation_settles grid ht h
  obtain ⟨settled', hsettled', same'⟩ := allocation_settles grid' ht' h'
  have settle : (Except.ok settled' : Except PyError PlannerState) = .ok settled := by
    rw [← hsettled', ← hsettled, alike.allocateTask]
    exact congrArg (fun tasks => tasks.foldlM p.allocateTask state) prefixes
  rw [same', Except.ok.inj settle, same]

end Planner

/-- The blocks of a task, whether picked before or after sorting. -/
theorem blocksOf_sortBlocks {blocks : List PlanBlock} (apart : PairwiseApart blocks)
    (taskId : UUID) :
    blocksOf (sortBlocks blocks) taskId = sortBlocks (blocksOf blocks taskId) := by
  refine (sortBy_filter _ ?_).symm
  rw [List.Nodup, List.pairwise_map]
  refine List.Pairwise.imp (fun {a b} hab heq => ?_) apart
  simp only [toLex_inj, Prod.mk.injEq] at heq
  have hpos := a.windowValid.2.2
  have hpos' := b.windowValid.2.2
  unfold TimeWindow.Apart at hab
  omega

/-- Two previews of one horizon, with the same availability, fixed events, preferences,
clock and budget, and with the same previous blocks, whose owners are open in both or
in neither: one is refused exactly when the other is, with the same error, and a task
that has the same tasks before it in both gets the same blocks and the same entry. -/
theorem buildPreview_earlier (zoneInfo : String → Zone) {request request' : PreviewRequest}
    {tasks tasks' : List TaskRecord} (shared : SharedHorizon request request')
    (owners : SharedOwners request.previousBlocks tasks tasks')
    (snapshot : SnapshotMatches request.taskIds tasks)
    (snapshot' : SnapshotMatches request'.taskIds tasks') (preferences : PreferenceValues)
    (timezoneName : String) (now : Int) (preferenceVersion : Nat) (searchBudget : Int) :
    (∀ error, buildPreview zoneInfo request' tasks' preferences timezoneName now
        preferenceVersion searchBudget = .error error ↔
      buildPreview zoneInfo request tasks preferences timezoneName now preferenceVersion
        searchBudget = .error error) ∧
      ∀ preview preview', buildPreview zoneInfo request tasks preferences timezoneName now
          preferenceVersion searchBudget = .ok preview →
        buildPreview zoneInfo request' tasks' preferences timezoneName now preferenceVersion
          searchBudget = .ok preview' →
        ∀ task ∈ tasks, task.status = .pending →
        (∀ other : TaskRecord, other.status = .pending →
          other.planKey preview.horizon.stop ≤ task.planKey preview.horizon.stop →
          (other ∈ tasks ↔ other ∈ tasks')) →
        blocksOf preview'.blocks task.id = blocksOf preview.blocks task.id ∧
          preview'.unscheduled.filter (·.taskId = task.id) =
            preview.unscheduled.filter (·.taskId = task.id) := by
  have constructors := Planner.init_shared preferences (zoneInfo timezoneName) now shared snapshot
    snapshot'
  unfold buildPreview
  rw [constructors]
  cases hinit : Planner.init request tasks preferences (zoneInfo timezoneName) now with
  | error error => exact ⟨fun _ => Iff.rfl, fun _ _ h => absurd h nofun⟩
  | ok p =>
      rw [hinit, map_ok] at constructors
      have grid := Planner.init_grid hinit
      have grid' := Planner.init_grid constructors
      obtain ⟨hrequest, -, -, -, htasks, -, -⟩ := Planner.init_fields hinit
      have owners' : SharedOwners p.request.previousBlocks p.tasks tasks' := by
        rw [hrequest, htasks]
        exact owners
      have alike := Planner.alike_of_shared (hrequest ▸ shared) owners'
      have preserved := alike.preservePrevious grid grid' owners' searchBudget
      simp only [map_ok, ok_bind, preserved, alike.allocateTask]
      cases hpreserve : p.preservePrevious (p.initial searchBudget) with
      | error error => exact ⟨fun _ => Iff.rfl, fun _ _ h => absurd h nofun⟩
      | ok state =>
          obtain ⟨final, hfinal⟩ := Planner.allocation_total grid hpreserve
          obtain ⟨final', hfinal'⟩ := Planner.allocation_total grid' (preserved.trans hpreserve)
          have sound := (Planner.phases_allocated grid hpreserve hfinal).sound.apart
          have sound' := (Planner.phases_allocated grid' (preserved.trans hpreserve)
            hfinal').sound.apart
          have hrun := hfinal'
          rw [alike.allocateTask] at hrun
          simp only [ok_bind, hfinal, hrun]
          have bounds : (p.reorder request' tasks').start = p.start ∧
              (p.reorder request' tasks').stop = p.stop := ⟨rfl, rfl⟩
          rw [bounds.1, bounds.2]
          cases hhorizon : TimeWindow.make p.start p.stop with
          | error error => exact ⟨fun _ => Iff.rfl, fun _ _ h => absurd h nofun⟩
          | ok horizon =>
              refine ⟨fun _ => ⟨nofun, nofun⟩,
                fun preview preview' h h' task ht hstatus earlier => ?_⟩
              rw [ok_bind, pure_eq_ok, Except.ok.injEq] at h h'
              subst h h'
              have hstop := (TimeWindow.make_ok.mp hhorizon).2
              rw [hstop] at earlier
              have same := alike.outcome grid grid' hfinal hfinal'
                (Planner.mem_pending.mpr ⟨htasks ▸ ht, hstatus⟩)
                fun other hopen hle => htasks ▸ earlier other hopen hle
              have outcome := Prod.ext_iff.mp same
              refine ⟨?_, outcome.2⟩
              rw [blocksOf_sortBlocks sound, blocksOf_sortBlocks sound']
              exact congrArg sortBlocks outcome.1

def errand : TaskRecord :=
  { essay with title := "errand", id := 3, clientRequestId := 3, valid := by decide }

/-- The lecture day with an errand after its two tasks. -/
def lectureErrand : PreviewRequest where
  startDate := lectureDay
  days := 1
  taskIds := [1, 2, 3]
  availability := [lectureOpening]
  fixedEvents := [lecture]
  previousBlocks := [⟨lectureFirstHour, 1, true⟩]
  planningValid := by decide
  previousValid := by decide

theorem buildPreview_earlier_errand :
    ∃ preview preview', buildPreview (fun _ => Zone.utc) lectureRequest [essay, reading]
        PreferenceValues.default "UTC" (lectureTime 480) 1 250000 = .ok preview ∧
      buildPreview (fun _ => Zone.utc) lectureErrand [essay, reading, errand]
        PreferenceValues.default "UTC" (lectureTime 480) 1 250000 = .ok preview' ∧
      blocksOf preview'.blocks 1 = blocksOf preview.blocks 1 := by
  have shown : okAnd (buildPreview (fun _ => Zone.utc) lectureRequest [essay, reading]
      PreferenceValues.default "UTC" (lectureTime 480) 1 250000) (fun _ => true) = true := by
    decide +kernel
  have shown' : okAnd (buildPreview (fun _ => Zone.utc) lectureErrand [essay, reading, errand]
      PreferenceValues.default "UTC" (lectureTime 480) 1 250000) (fun _ => true) = true := by
    decide +kernel
  obtain ⟨preview, h, -⟩ := exists_of_okAnd shown
  obtain ⟨preview', h', -⟩ := exists_of_okAnd shown'
  have owners : SharedOwners lectureRequest.previousBlocks [essay, reading]
      [essay, reading, errand] := by
    intro block hb task _ hid
    rw [List.mem_singleton.mp hb] at hid
    have hne : task ≠ errand := by
      rintro rfl
      exact absurd hid (by decide)
    simp [hne]
  have same := (@buildPreview_earlier (fun _ => Zone.utc) lectureRequest lectureErrand
    [essay, reading] [essay, reading, errand] ⟨rfl, rfl, rfl, rfl, rfl⟩ owners (by decide)
    (by decide) PreferenceValues.default "UTC" (lectureTime 480) 1 250000).2 preview preview' h h'
  refine ⟨preview, preview', h, h', (same essay (by decide) rfl fun other _ hle => ?_).1⟩
  have hne : other ≠ errand := by
    rintro rfl
    simp [TaskRecord.planKey, essay, errand, Prod.Lex.toLex_le_toLex] at hle
  simp [hne]

end SmartPlanner
