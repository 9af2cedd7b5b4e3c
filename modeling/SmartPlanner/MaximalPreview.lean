import SmartPlanner.Library.Counting
import SmartPlanner.EarlierTasks
import SmartPlanner.PreviewIdempotent
import SmartPlanner.ScheduleRepository

/-!
A preview leaves no room behind. A layout that the checker accepts, that keeps
the blocks of the preview and starts its own in the future completes no task that
the preview left incomplete, wherever it puts them.
-/

namespace SmartPlanner

open Intervals Outcome Sorting

theorem PairwiseApart.own {blocks : List PlanBlock} (apart : PairwiseApart blocks)
    (taskId : UUID) : PairwiseApart (blocksOf blocks taskId) :=
  List.Pairwise.filter _ apart

namespace Planner
variable {p : Planner} {state : PlannerState} {blocks : List PlanBlock}

/-- The minutes of a block that fits and keeps clear of what is placed are free. -/
theorem Sound.free_of_fits (grid : p.Grid) (sound : p.Sound state) {task : TaskRecord}
    {window : TimeWindow} (fits : p.Fits task window)
    (apart : ∀ other ∈ state.blocks, window.Apart other.toTimeWindow) {i : Int}
    (low : (p.indices window).1 ≤ i) (high : i < (p.indices window).2) :
    p.freeMask state.busy 0 i = true := by
  rw [freeMask_iff grid, sound.busy_eq]
  refine ⟨fits.2.2 i low high, fun interval hinterval => ?_⟩
  rcases List.mem_append.mp hinterval with hevent | hblock
  · exact grid.available_event (fits.2.2 i low high) hevent
  · obtain ⟨other, hother, rfl⟩ := List.mem_map.mp hblock
    have hapart := (indices_apart grid).mpr (apart other hother)
    unfold Apart at hapart
    omega

/-- The minutes of blocks. -/
noncomputable def minutesCovered (p : Planner) (blocks : List PlanBlock) : Finset Int :=
  covered (blocks.map fun block => p.indices block.toTimeWindow)

theorem mem_minutesCovered {i : Int} : i ∈ p.minutesCovered blocks ↔
    ∃ block ∈ blocks, (p.indices block.toTimeWindow).1 ≤ i ∧
      i < (p.indices block.toTimeWindow).2 := by
  unfold minutesCovered
  simp only [mem_covered, List.mem_map, exists_exists_and_eq_and]

theorem card_minutesCovered (grid : p.Grid) (apart : PairwiseApart blocks) :
    ((p.minutesCovered blocks).card : Int) = minutesOf blocks := by
  have disjoint : (blocks.map fun block => p.indices block.toTimeWindow).Pairwise Apart :=
    List.pairwise_map.mpr (apart.imp fun hab => (indices_apart grid).mpr hab)
  have ordered : ∀ interval ∈ blocks.map fun block => p.indices block.toTimeWindow,
      interval.1 ≤ interval.2 := by
    intro interval hinterval
    obtain ⟨block, -, rfl⟩ := List.mem_map.mp hinterval
    exact le_of_lt (indices_lt grid block.toTimeWindow)
  unfold minutesCovered minutesOf
  rw [card_covered disjoint ordered, List.map_map]
  exact congrArg List.sum (List.map_congr_left fun block _ =>
    (indices_minutes grid block.toTimeWindow).symm)

/-- A layout that keeps the placed blocks and adds others that fit their tasks. -/
structure Extends (p : Planner) (state : PlannerState) (blocks : List PlanBlock) : Prop where
  kept : ∀ block ∈ state.blocks, blockKey block ∈ blocks.map blockKey
  apart : PairwiseApart blocks
  fits : ∀ task ∈ p.pending, ∀ block ∈ blocksOf blocks task.id,
    blockKey block ∉ state.blocks.map blockKey → p.Fits task block.toTimeWindow

namespace Extends

/-- An added block keeps clear of the placed ones. -/
theorem added_apart (ext : p.Extends state blocks) {block : PlanBlock} (hblock : block ∈ blocks)
    (added : blockKey block ∉ state.blocks.map blockKey) :
    ∀ other ∈ state.blocks, block.toTimeWindow.Apart other.toTimeWindow := by
  intro other hother
  obtain ⟨same, hsame, hkey⟩ := List.mem_map.mp (ext.kept other hother)
  rcases ext.apart.eq_or_apart hblock hsame with rfl | hapart
  · exact absurd (hkey ▸ List.mem_map_of_mem hother) added
  · simp only [blockKey, Prod.mk.injEq] at hkey
    unfold TimeWindow.Apart at hapart ⊢
    omega

theorem added_free (grid : p.Grid) (sound : p.Sound state) (ext : p.Extends state blocks)
    {task : TaskRecord} (ht : task ∈ p.pending) {block : PlanBlock}
    (hblock : block ∈ blocksOf blocks task.id)
    (added : blockKey block ∉ state.blocks.map blockKey) {i : Int}
    (low : (p.indices block.toTimeWindow).1 ≤ i) (high : i < (p.indices block.toTimeWindow).2) :
    p.freeMask state.busy 0 i = true :=
  sound.free_of_fits grid (ext.fits task ht block hblock added)
    (ext.added_apart (mem_blocksOf.mp hblock).1 added) low high

/-- The placed minutes of a task are among those of the layout. -/
theorem covers (ext : p.Extends state blocks) (taskId : UUID) :
    p.minutesCovered (blocksOf state.blocks taskId) ⊆
      p.minutesCovered (blocksOf blocks taskId) := by
  intro i hi
  obtain ⟨block, hblock, hi⟩ := mem_minutesCovered.mp hi
  obtain ⟨hmem, hid⟩ := mem_blocksOf.mp hblock
  obtain ⟨same, hsame, hkey⟩ := List.mem_map.mp (ext.kept block hmem)
  simp only [blockKey, Prod.mk.injEq] at hkey
  obtain ⟨howner, hstart, hstop⟩ := hkey
  refine mem_minutesCovered.mpr ⟨same, mem_blocksOf.mpr ⟨hsame, howner.trans hid⟩, ?_⟩
  unfold indices indicesFrom at hi ⊢
  rwa [hstart, hstop]

theorem minutes_le (grid : p.Grid) (sound : p.Sound state) (ext : p.Extends state blocks)
    (taskId : UUID) :
    minutesOf (blocksOf state.blocks taskId) ≤ minutesOf (blocksOf blocks taskId) := by
  have hcard := Finset.card_le_card (ext.covers taskId)
  rw [← card_minutesCovered grid (sound.apart.own taskId),
    ← card_minutesCovered grid (ext.apart.own taskId)]
  exact Int.ofNat_le.mpr hcard

/-- The minutes that the layout adds to a task are free minutes of it. -/
theorem added_minutes (grid : p.Grid) (sound : p.Sound state) (ext : p.Extends state blocks)
    {task : TaskRecord} (ht : task ∈ p.pending) :
    p.minutesCovered (blocksOf blocks task.id) \
      p.minutesCovered (blocksOf state.blocks task.id) ⊆ p.freeMinutes task state.busy := by
  intro i hi
  obtain ⟨hnew, hold⟩ := Finset.mem_sdiff.mp hi
  obtain ⟨block, hblock, low, high⟩ := mem_minutesCovered.mp hnew
  have added : blockKey block ∉ state.blocks.map blockKey := by
    intro hplaced
    obtain ⟨same, hsame, hkey⟩ := List.mem_map.mp hplaced
    simp only [blockKey, Prod.mk.injEq] at hkey
    obtain ⟨howner, hstart, hstop⟩ := hkey
    refine hold (mem_minutesCovered.mpr ⟨same, mem_blocksOf.mpr
      ⟨hsame, howner.trans (mem_blocksOf.mp hblock).2⟩, ?_⟩)
    unfold indices indicesFrom at low high ⊢
    rw [hstart, hstop]
    exact ⟨low, high⟩
  have fits := ext.fits task ht block hblock added
  exact mem_freeMinutes.mpr ⟨⟨fits.1.trans low, lt_of_lt_of_le high fits.2.1⟩,
    added_free grid sound ext ht hblock added low high⟩

/-- A task without room stays incomplete. -/
theorem incomplete (grid : p.Grid) (sound : p.Sound state) (ext : p.Extends state blocks)
    {task : TaskRecord} (ht : task ∈ p.pending)
    (placed : ShareOk task (blocksOf state.blocks task.id))
    (share : ShareOk task (blocksOf blocks task.id))
    (missing : minutesOf (blocksOf state.blocks task.id) < task.durationMinutes)
    (noRoom : p.NoRoom task (task.durationMinutes - minutesOf (blocksOf state.blocks task.id))
      state.busy) : minutesOf (blocksOf blocks task.id) < task.durationMinutes := by
  refine lt_of_le_of_ne share.1 fun complete => ?_
  unfold NoRoom at noRoom
  split at noRoom
  · -- The added minutes alone are as many as were missing.
    have hadded := Finset.card_le_card (added_minutes grid sound ext ht)
    have hrest := Finset.le_card_sdiff (p.minutesCovered (blocksOf state.blocks task.id))
      (p.minutesCovered (blocksOf blocks task.id))
    have hbefore := card_minutesCovered grid (sound.apart.own task.id)
    have hafter := card_minutesCovered grid (ext.apart.own task.id)
    omega
  · next hsplit =>
    have whole : task.splittable = false := by simpa using hsplit
    have hnone : blocksOf state.blocks task.id = [] := by
      by_contra hne
      exact absurd (placed.2 whole hne).2 (ne_of_lt missing)
    have hduration := task.duration_pos
    have hsome : blocksOf blocks task.id ≠ [] := by
      intro hnil
      rw [hnil, minutesOf_nil] at complete
      omega
    obtain ⟨block, hone⟩ := List.length_eq_one_iff.mp (share.2 whole hsome).1
    have hblock : block ∈ blocksOf blocks task.id := hone ▸ List.mem_singleton_self block
    have added : blockKey block ∉ state.blocks.map blockKey := by
      intro hplaced
      obtain ⟨same, hsame, hkey⟩ := List.mem_map.mp hplaced
      simp only [blockKey, Prod.mk.injEq] at hkey
      have hin : same ∈ blocksOf state.blocks task.id :=
        mem_blocksOf.mpr ⟨hsame, hkey.1.trans (mem_blocksOf.mp hblock).2⟩
      rw [hnone] at hin
      exact absurd hin List.not_mem_nil
    have fits := ext.fits task ht block hblock added
    have hminutes := indices_minutes grid block.toTimeWindow
    rw [hone, minutesOf_cons, minutesOf_nil] at complete
    rw [hnone, minutesOf_nil] at noRoom
    refine noRoom ⟨(p.indices block.toTimeWindow).1, fits.1, ?_, fun i low high => ?_⟩
    · have hstop := fits.2.1
      omega
    · exact added_free grid sound ext ht hblock added low (by omega)

end Extends

end Planner

/-- The tasks whose blocks are too short are those with a shortfall. -/
theorem mem_shortfalls {blocks : List PlanBlock} {tasks : List TaskRecord} {id : UUID} :
    id ∈ (tasks.filterMap (shortfall blocks)).map Prod.fst ↔
      ∃ task ∈ tasks, task.id = id ∧
        minutesOf (blocksOf blocks task.id) < task.durationMinutes := by
  simp only [List.mem_map, List.mem_filterMap]
  constructor
  · rintro ⟨entry, ⟨task, ht, hentry⟩, rfl⟩
    refine ⟨task, ht, (shortfall_fst (Option.mem_def.mpr hentry)).symm, ?_⟩
    by_contra hless
    simp only [shortfall] at hentry
    rw [if_neg hless] at hentry
    contradiction
  · rintro ⟨task, ht, rfl, hless⟩
    refine ⟨(task.id, task.durationMinutes - minutesOf (blocksOf blocks task.id)),
      ⟨task, ht, ?_⟩, rfl⟩
    simp only [shortfall]
    rw [if_pos hless]

section
variable {zoneInfo : String → Zone} {request : PreviewRequest} {tasks : List TaskRecord}
  {preferences values : PreferenceValues} {timezoneName : String} {now : Int}
  {preferenceVersion : Nat} {searchBudget : Int} {preview : PlanPreview}
  {blocks : List PlanBlock} {report : LayoutReport}

theorem mem_missing {window : PlanningWindow}
    (accepted : inspectLayout zoneInfo window blocks tasks values timezoneName = .ok report)
    {id : UUID} : id ∈ report.missing.map (·.taskId) ↔
      ∃ task ∈ tasks, task.status = .pending ∧ task.id = id ∧
        minutesOf (blocksOf blocks task.id) < task.durationMinutes := by
  obtain ⟨-, p, rfl, -, -, -, hamount, -⟩ := inspectLayout_report accepted
  have ids : report.missing.map (·.taskId) = (report.missing.map (·.amount)).map Prod.fst := by
    rw [List.map_map]
    rfl
  rw [ids, hamount, mem_shortfalls]
  simp only [Planner.mem_ordered, Planner.mem_pending, and_assoc]

/-- A preview that was not cut short by the search budget is maximal. Whatever
layout of its window the checker accepts that keeps its blocks, up to their locks,
and starts no other block before the clock, the tasks that are incomplete in it are
those that the preview lists. -/
theorem buildPreview_maximal
    (h : buildPreview zoneInfo request tasks preferences timezoneName now preferenceVersion
      searchBudget = .ok preview)
    (unlimited : ∀ entry ∈ preview.unscheduled, entry.reason ≠ .searchLimit)
    (accepted : inspectLayout zoneInfo request.toPlanningWindow blocks tasks values timezoneName =
      .ok report)
    (kept : ∀ block ∈ preview.blocks, blockKey block ∈ blocks.map blockKey)
    (future : ∀ block ∈ blocks, blockKey block ∉ preview.blocks.map blockKey → now ≤ block.start)
    (id : UUID) :
    id ∈ report.missing.map (·.taskId) ↔ id ∈ preview.unscheduled.map (·.taskId) := by
  obtain ⟨layout, -⟩ := inspectLayout_report accepted
  rw [mem_missing accepted]
  unfold buildPreview at h
  simp only [bind_ok, pure_eq_ok, Except.ok.injEq] at h
  obtain ⟨p, hinit, preserved, hpreserve, state, hallocate, horizon, -, rfl⟩ := h
  simp only at unlimited kept future ⊢
  have grid := Planner.init_grid hinit
  have inv := Planner.phases_allocated grid hpreserve hallocate
  obtain ⟨hrequest, -, -, hnow, htasks, hstart, hstop⟩ := Planner.init_fields hinit
  have ids : state.unscheduled.map (·.taskId) =
      (state.unscheduled.map (·.amount)).map Prod.fst := by
    rw [List.map_map]
    rfl
  rw [ids, inv.accounted, mem_shortfalls]
  simp only [Planner.mem_ordered, Planner.mem_pending, and_assoc, htasks]
  have keys : ∀ key, key ∈ (sortBlocks state.blocks).map blockKey ↔
      key ∈ state.blocks.map blockKey := fun key => by
    simp only [List.mem_map, sortBlocks, mem_sortBy]
  have ext : p.Extends state blocks := by
    refine ⟨fun block hb => kept block (mem_sortBy.mpr hb), layout.apart, ?_⟩
    intro task ht block hblock added
    obtain ⟨hmem, hpending⟩ := Planner.mem_pending.mp ht
    have allowed := layout.allowed task (htasks ▸ hmem) hpending block hblock
    refine (Planner.fits_iff grid).mpr ?_
    rw [hstart, hstop, hnow, hrequest]
    exact { allowed with
      notPast := future block (mem_blocksOf.mp hblock).1 (mt (keys _).mp added) }
  refine exists_congr fun task => and_congr_right fun ht => and_congr_right fun hpending =>
    and_congr_right fun hid => ?_
  have hp : task ∈ p.pending := Planner.mem_pending.mpr ⟨htasks ▸ ht, hpending⟩
  refine ⟨fun hless => lt_of_le_of_lt (Planner.Extends.minutes_le grid inv.sound ext _) hless,
    fun hless => ?_⟩
  rcases Planner.phases_settled grid hpreserve hallocate task hp with
    complete | ⟨-, entry, hentry, hreason⟩
  · exact absurd complete (ne_of_lt hless)
  · exact Planner.Extends.incomplete grid inv.sound ext hp (inv.share task hp)
      (layout.share task ht hpending) hless (hreason.resolve_left (unlimited entry hentry))

end

/-- Three quarters of an hour, in pieces. -/
def chores : TaskRecord :=
  { reading with
    title := "chores"
    durationMinutes := 45
    id := 3
    clientRequestId := 3
    valid := by decide }

/-- The lecture day with the chores beside the locked essay. -/
def lectureChores : PreviewRequest where
  startDate := lectureDay
  days := 1
  taskIds := [1, 3]
  availability := [lectureOpening]
  fixedEvents := [lecture]
  previousBlocks := [⟨lectureFirstHour, 1, true⟩]
  planningValid := by decide
  previousValid := by decide

/-- The half hour after the lecture, for the chores. -/
def choresPiece : PlanBlock := ⟨⟨lectureTime 630, lectureTime 660, by decide⟩, 3, false⟩

/-- Half an hour of the chores fits after the lecture, and leaves them incomplete. -/
theorem buildPreview_maximal_chores :
    ∃ preview report, buildPreview (fun _ => Zone.utc) lectureChores [essay, chores]
        PreferenceValues.default "UTC" (lectureTime 480) 1 250000 = .ok preview ∧
      choresPiece ∉ preview.blocks ∧
      inspectLayout (fun _ => Zone.utc) lectureChores.toPlanningWindow
        (preview.blocks ++ [choresPiece]) [essay, chores] PreferenceValues.default "UTC" =
          .ok report ∧
      3 ∈ report.missing.map (·.taskId) := by
  have returned : okAnd (buildPreview (fun _ => Zone.utc) lectureChores [essay, chores]
      PreferenceValues.default "UTC" (lectureTime 480) 1 250000) (fun preview =>
        decide (choresPiece ∉ preview.blocks ∧ 3 ∈ preview.unscheduled.map (·.taskId)) &&
        (preview.unscheduled.all fun entry => decide (entry.reason ≠ .searchLimit)) &&
        okAnd (inspectLayout (fun _ => Zone.utc) lectureChores.toPlanningWindow
          (preview.blocks ++ [choresPiece]) [essay, chores] PreferenceValues.default "UTC")
          (fun _ => true)) = true := by
    decide +kernel
  obtain ⟨preview, h, hrest⟩ := exists_of_okAnd returned
  rw [Bool.and_eq_true, Bool.and_eq_true, decide_eq_true_eq, List.all_eq_true] at hrest
  obtain ⟨⟨⟨added, hlisted⟩, unlimited⟩, accepted⟩ := hrest
  obtain ⟨report, accepted, -⟩ := exists_of_okAnd accepted
  have kept : ∀ block ∈ preview.blocks,
      blockKey block ∈ (preview.blocks ++ [choresPiece]).map blockKey := fun block hblock =>
    List.mem_map_of_mem (List.mem_append_left _ hblock)
  have future : ∀ block ∈ preview.blocks ++ [choresPiece],
      blockKey block ∉ preview.blocks.map blockKey → lectureTime 480 ≤ block.start := by
    rw [List.forall_mem_append, List.forall_mem_singleton]
    exact ⟨fun block hblock hnew => absurd (List.mem_map_of_mem hblock) hnew, fun _ => by decide⟩
  exact ⟨preview, report, h, added, accepted, (buildPreview_maximal h
    (fun entry hentry => of_decide_eq_true (unlimited entry hentry)) accepted kept future 3).mpr
    hlisted⟩

end SmartPlanner
