import SmartPlanner.CheckErrors
import SmartPlanner.OrderIndependence

/-!
`inspect_layout` against a description of valid layouts that names none of its
loops. On a window whose horizon, availability and events are in order it
accepts exactly those layouts, reports what is missing, and does not mind the
order of the blocks.
-/

namespace SmartPlanner

open Intervals Outcome Sorting

/-- A window that the planner's constructor has nothing against. -/
structure WindowReady (zone : Zone) (window : PlanningWindow) : Prop where
  horizon : HorizonOk zone window
  representable : WindowValid (window.horizonStart zone) (window.horizonStop zone)
  availability : ∀ slot ∈ window.availability,
    window.horizonStart zone ≤ slot.start ∧ slot.stop ≤ window.horizonStop zone
  eventsMeet : ∀ event ∈ window.fixedEvents,
    event.start < window.horizonStop zone ∧ window.horizonStart zone < event.stop
  eventsApart : window.fixedEvents.Pairwise fun a b => a.toTimeWindow.Apart b.toTimeWindow

/-- A valid layout of a window. -/
structure ValidLayout (zone : Zone) (window : PlanningWindow) (blocks : List PlanBlock)
    (tasks : List TaskRecord) : Prop where
  pending : ∀ block ∈ blocks, ∃ task ∈ tasks, task.id = block.taskId ∧ task.status = .pending
  duration : ∀ task ∈ tasks, task.status = .pending →
    minutesOf (blocksOf blocks task.id) ≤ task.durationMinutes
  unsplit : ∀ task ∈ tasks, task.status = .pending → task.splittable = false →
    blocksOf blocks task.id ≠ [] →
    ∃ block, blocksOf blocks task.id = [block] ∧ block.minutes = task.durationMinutes
  bounds : ∀ block ∈ blocks, ∀ task ∈ tasks, task.id = block.taskId →
    (∀ earliest ∈ task.earliestStart, ceilMinutes earliest * minute ≤ block.start) ∧
    ∀ deadline ∈ task.deadline, block.stop ≤ floorMinutes deadline * minute
  inside : ∀ block ∈ blocks,
    window.horizonStart zone ≤ block.start ∧ block.stop ≤ window.horizonStop zone
  free : ∀ block ∈ blocks, ∀ t, block.toTimeWindow.Contains t →
    (∃ slot ∈ window.availability, slot.Contains t) ∧
    ∀ event ∈ window.fixedEvents, ¬ event.toTimeWindow.Contains t
  apart : PairwiseApart blocks

theorem TimeWindow.apart_iff_contains {a b : TimeWindow} :
    a.Apart b ↔ ∀ t, a.Contains t → ¬ b.Contains t := by
  have h := @apart_iff_no_common (a.start, a.stop) (b.start, b.stop) a.windowValid.2.2
    b.windowValid.2.2
  refine h.trans (forall_congr' fun t => ?_)
  exact and_imp.symm

/-- Disjoint events that meet the horizon are accepted. -/
theorem WindowReady.windowOk {zone : Zone} {window : PlanningWindow}
    (ready : WindowReady zone window) : WindowOk zone window :=
  ⟨ready.horizon, ready.availability,
    ready.horizon.eventsAccepted_iff.mpr ⟨ready.eventsMeet, ready.eventsApart⟩⟩

/-- The two descriptions of an acceptable layout agree on such a window. -/
theorem layoutOk_iff {zone : Zone} {window : PlanningWindow} {blocks : List PlanBlock}
    {tasks : List TaskRecord} (ready : WindowReady zone window)
    (snapshot : SnapshotMatches window.taskIds tasks) (count : blocks.length ≤ 512) :
    LayoutOk zone window blocks tasks ↔ ValidLayout zone window blocks tasks := by
  constructor
  · intro layout
    have allowed : ∀ block ∈ blocks, ∀ task ∈ tasks, task.id = block.taskId →
        BlockAllowed (window.horizonStart zone) (window.horizonStop zone)
          (window.horizonStart zone) window task block.toTimeWindow := by
      intro block hb task ht hid
      obtain ⟨other, ho, hp, heq⟩ := layout.pending block hb
      have same : task = other :=
        List.inj_on_of_nodup_map snapshot.1 ht ho (hid.trans heq)
      exact layout.allowed task ht (same ▸ hp) block (mem_blocksOf.mpr ⟨hb, hid.symm⟩)
    have some_allowed : ∀ block ∈ blocks, ∃ task,
        BlockAllowed (window.horizonStart zone) (window.horizonStop zone)
          (window.horizonStart zone) window task block.toTimeWindow := by
      intro block hb
      obtain ⟨task, ht, -, hid⟩ := layout.pending block hb
      exact ⟨task, allowed block hb task ht hid.symm⟩
    refine ⟨fun block hb => ?_, fun task ht hp => (layout.share task ht hp).1,
      fun task ht hp hs hne => ?_, fun block hb task ht hid => ?_, fun block hb => ?_,
      fun block hb t hin => ?_, layout.apart⟩
    · obtain ⟨task, ht, hp, hid⟩ := layout.pending block hb
      exact ⟨task, ht, hid.symm, hp⟩
    · obtain ⟨hone, hminutes⟩ := (layout.share task ht hp).2 hs hne
      obtain ⟨block, hblock⟩ := List.length_eq_one_iff.mp hone
      refine ⟨block, hblock, ?_⟩
      rw [hblock] at hminutes
      simpa using hminutes
    · have hallowed := allowed block hb task ht hid
      have whole := block.windowValid.1.2
      have whole' := block.windowValid.2.1.2
      refine ⟨fun earliest he => ?_, fun deadline hd => ?_⟩
      · have hle := hallowed.afterEarliest earliest he
        unfold ceilMinutes minute at *
        omega
      · have hle := hallowed.beforeDeadline deadline hd
        unfold floorMinutes minute at *
        omega
    · obtain ⟨task, hallowed⟩ := some_allowed block hb
      exact hallowed.inside
    · obtain ⟨task, hallowed⟩ := some_allowed block hb
      refine ⟨hallowed.available t hin, fun event hevent => ?_⟩
      exact TimeWindow.apart_iff_contains.mp (hallowed.apartEvents event hevent) t hin
  · intro valid
    refine ⟨ready.windowOk, ready.representable, snapshot, count, fun block hb => ?_,
      fun task ht hp => ⟨valid.duration task ht hp, fun hs hne => ?_⟩,
      fun task ht hp block hmem => ?_, valid.apart⟩
    · obtain ⟨task, ht, hid, hp⟩ := valid.pending block hb
      exact ⟨task, ht, hp, hid.symm⟩
    · obtain ⟨block, hblock, hminutes⟩ := valid.unsplit task ht hp hs hne
      rw [hblock]
      exact ⟨rfl, by simpa using hminutes⟩
    · obtain ⟨hb, hid⟩ := mem_blocksOf.mp hmem
      obtain ⟨hearliest, hdeadline⟩ := valid.bounds block hb task ht hid.symm
      have hinside := valid.inside block hb
      refine ⟨hinside, hinside.1, fun earliest he => ?_, fun deadline hd => ?_,
        fun t hin => (valid.free block hb t hin).1, fun event hevent => ?_⟩
      · have hle := hearliest earliest he
        unfold ceilMinutes minute at hle
        omega
      · have hle := hdeadline deadline hd
        unfold floorMinutes minute at hle
        omega
      · exact TimeWindow.apart_iff_contains.mpr fun t hin =>
          (valid.free block hb t hin).2 event hevent

section
variable {zoneInfo : String → Zone} {window : PlanningWindow} {blocks : List PlanBlock}
  {tasks : List TaskRecord} {timezoneName : String}

/-- On such a window only the checks of the blocks raise. -/
theorem inspectLayout_raises (preferences : PreferenceValues)
    (ready : WindowReady (zoneInfo timezoneName) window)
    (snapshot : SnapshotMatches window.taskIds tasks)
    (selected : ∀ block ∈ blocks, block.taskId ∈ window.taskIds) (count : blocks.length ≤ 512) :
    Raises (fun e => ∃ error, e = .app error)
      (inspectLayout zoneInfo window blocks tasks preferences timezoneName) := by
  have requestValid : (blocks.map PlanBlock.lock).length ≤ 512 ∧
      ∀ block ∈ blocks.map PlanBlock.lock, block.taskId ∈ window.taskIds := by
    refine ⟨by simpa using count, fun block hb => ?_⟩
    obtain ⟨original, ho, rfl⟩ := List.mem_map.mp hb
    exact selected original ho
  obtain ⟨p, hinit⟩ : ∃ p, Planner.init ⟨window, blocks.map PlanBlock.lock, requestValid⟩ tasks
      preferences (zoneInfo timezoneName) ((zoneInfo timezoneName).dayStart window.startDate) =
        .ok p :=
    Planner.init_iff.mpr ⟨le_of_eq ready.horizon.2.1, ready.windowOk, snapshot⟩
  obtain ⟨-, -, -, -, -, hstart, hstop⟩ := Planner.init_fields hinit
  obtain ⟨missing, hmissing, -⟩ := foldlM_missingEntry blocks p.ordered []
  have hhorizon : TimeWindow.make p.start p.stop = .ok ⟨_, _, ready.representable⟩ :=
    TimeWindow.make_ok.mpr ⟨hstart.symm, hstop.symm⟩
  unfold inspectLayout
  refine (raises_raiseIf ⟨_, rfl⟩).bind fun _ _ => ?_
  rw [PreviewRequest.make_valid requestValid, ok_bind]
  simp only
  rw [hinit, ok_bind]
  refine Raises.bind ?_ fun state _ => ?_
  · refine (raises_relabelLockErrors (p.raises_preservePrevious _)).mono ?_
    rintro e ⟨error, rfl, -⟩
    exact ⟨error, rfl⟩
  · rw [hmissing, ok_bind, hhorizon]
    exact raises_ok _

/-- The report lists every pending task that is short of minutes. -/
theorem inspectLayout_missing {preferences : PreferenceValues} {report : LayoutReport}
    (h : inspectLayout zoneInfo window blocks tasks preferences timezoneName = .ok report) :
    (report.missing.map fun entry => (entry.taskId, entry.remainingMinutes)).Perm
      ((tasks.filter fun task => task.status = .pending ∧
          minutesOf (blocksOf blocks task.id) < task.durationMinutes).map fun task =>
        (task.id, task.durationMinutes - minutesOf (blocksOf blocks task.id))) := by
  obtain ⟨-, p, htasks, -, -, -, hmissing, -⟩ := inspectLayout_report h
  change (report.missing.map (·.amount)).Perm _
  rw [hmissing]
  have perm : p.ordered.Perm (tasks.filter fun task => task.status = .pending) := by
    subst htasks
    exact sortBy_perm _ _
  refine (perm.filterMap _).trans (.of_eq ?_)
  rw [List.filterMap_filter, ← List.filterMap_eq_map, List.filterMap_filter]
  refine List.filterMap_congr fun task _ => ?_
  simp only [shortfall]
  by_cases hp : task.status = .pending <;>
    by_cases hless : minutesOf (blocksOf blocks task.id) < task.durationMinutes <;>
    simp [hp, hless]

/-- The checker treats the blocks as a set. -/
theorem inspectLayout_perm (preferences : PreferenceValues) {blocks' : List PlanBlock}
    (perm : blocks'.Perm blocks) :
    inspectLayout zoneInfo window blocks' tasks preferences timezoneName =
      inspectLayout zoneInfo window blocks tasks preferences timezoneName := by
  have locked := perm.map PlanBlock.lock
  have entries : missingEntry blocks' = missingEntry blocks := by
    funext missing task
    unfold missingEntry
    rw [minutesOf_perm (perm.filter _)]
  unfold inspectLayout
  simp only [perm.mem_iff, entries]
  by_cases valid : (blocks.map PlanBlock.lock).length ≤ 512 ∧
      ∀ block ∈ blocks.map PlanBlock.lock, block.taskId ∈ window.taskIds
  · have valid' : (blocks'.map PlanBlock.lock).length ≤ 512 ∧
        ∀ block ∈ blocks'.map PlanBlock.lock, block.taskId ∈ window.taskIds :=
      ⟨locked.length_eq ▸ valid.1, fun block hb => valid.2 block (locked.mem_iff.mp hb)⟩
    have reordered : Reordered ⟨window, blocks.map PlanBlock.lock, valid⟩
        ⟨window, blocks'.map PlanBlock.lock, valid'⟩ :=
      ⟨rfl, rfl, .refl _, .refl _, .refl _, locked⟩
    rw [PreviewRequest.make_valid valid, PreviewRequest.make_valid valid']
    simp only [ok_bind]
    rw [Planner.init_reorder preferences (zoneInfo timezoneName) _ reordered (.refl tasks)]
    cases hinit : Planner.init ⟨window, blocks.map PlanBlock.lock, valid⟩ tasks preferences
        (zoneInfo timezoneName) ((zoneInfo timezoneName).dayStart window.startDate) with
    | error error => rfl
    | ok p =>
        have grid := Planner.init_grid hinit
        obtain ⟨hrequest, -, -, -, htasks, -, -⟩ := Planner.init_fields hinit
        have same : p.SameInputs ⟨window, blocks'.map PlanBlock.lock, valid'⟩ tasks :=
          ⟨hrequest ▸ reordered, htasks ▸ .refl _⟩
        simp only [map_ok, ok_bind, same.preservePrevious grid, same.ordered grid,
          same.ignoredTaskIds, same.warnings]
        rfl
  · have valid' : ¬ ((blocks'.map PlanBlock.lock).length ≤ 512 ∧
        ∀ block ∈ blocks'.map PlanBlock.lock, block.taskId ∈ window.taskIds) := by
      rw [locked.length_eq]
      simpa only [locked.mem_iff] using valid
    rw [PreviewRequest.make_invalid valid, PreviewRequest.make_invalid valid']

/-- The checker accepts exactly the valid layouts of at most 512 blocks. -/
theorem inspectLayout_exact (preferences : PreferenceValues)
    (ready : WindowReady (zoneInfo timezoneName) window)
    (snapshot : SnapshotMatches window.taskIds tasks)
    (selected : ∀ block ∈ blocks, block.taskId ∈ window.taskIds) (count : blocks.length ≤ 512) :
    ((∃ report, inspectLayout zoneInfo window blocks tasks preferences timezoneName =
        .ok report) ↔
      ValidLayout (zoneInfo timezoneName) window blocks tasks) ∧
    (¬ ValidLayout (zoneInfo timezoneName) window blocks tasks →
      ∃ error, inspectLayout zoneInfo window blocks tasks preferences timezoneName =
        .error (.app error)) ∧
    (∀ report, inspectLayout zoneInfo window blocks tasks preferences timezoneName =
        .ok report →
      (report.missing.map fun entry => (entry.taskId, entry.remainingMinutes)).Perm
        ((tasks.filter fun task => task.status = .pending ∧
            minutesOf (blocksOf blocks task.id) < task.durationMinutes).map fun task =>
          (task.id, task.durationMinutes - minutesOf (blocksOf blocks task.id)))) ∧
    ∀ blocks' : List PlanBlock, blocks'.Perm blocks →
      inspectLayout zoneInfo window blocks' tasks preferences timezoneName =
        inspectLayout zoneInfo window blocks tasks preferences timezoneName := by
  have accepts : (∃ report, inspectLayout zoneInfo window blocks tasks preferences timezoneName =
      .ok report) ↔ ValidLayout (zoneInfo timezoneName) window blocks tasks := by
    rw [← layoutOk_iff ready snapshot count]
    exact ⟨fun ⟨report, h⟩ => (inspectLayout_report h).1, inspectLayout_total preferences⟩
  refine ⟨accepts, fun invalid => ?_, fun report => inspectLayout_missing,
    fun blocks' => inspectLayout_perm preferences⟩
  have raises := inspectLayout_raises preferences ready snapshot selected count
  cases h : inspectLayout zoneInfo window blocks tasks preferences timezoneName with
  | ok report => exact absurd (accepts.mp ⟨report, h⟩) invalid
  | error e =>
      obtain ⟨error, rfl⟩ := raises e h
      exact ⟨error, rfl⟩

end

/-- The lecture day is in order, and the essay alone is a valid layout of it. -/
theorem inspectLayout_exact_lecture :
    ∃ report, inspectLayout (fun _ => Zone.utc) lectureRequest.toPlanningWindow
        [⟨lectureFirstHour, 1, false⟩] [essay, reading] PreferenceValues.default "UTC" =
          .ok report ∧
      ValidLayout Zone.utc lectureRequest.toPlanningWindow [⟨lectureFirstHour, 1, false⟩]
        [essay, reading] ∧
      (report.missing.map fun entry => (entry.taskId, entry.remainingMinutes)) = [(2, 30)] := by
  have ready : WindowReady Zone.utc lectureRequest.toPlanningWindow := by
    refine ⟨?_, by decide, by decide, by decide, List.pairwise_singleton _ _⟩
    unfold HorizonOk
    decide
  have inspected : okAnd (inspectLayout (fun _ => Zone.utc) lectureRequest.toPlanningWindow
      [⟨lectureFirstHour, 1, false⟩] [essay, reading] PreferenceValues.default "UTC")
      (fun _ => true) = true := by
    decide +kernel
  obtain ⟨report, h, -⟩ := exists_of_okAnd inspected
  obtain ⟨accepts, -, missing, -⟩ := @inspectLayout_exact (fun _ => Zone.utc)
    lectureRequest.toPlanningWindow [⟨lectureFirstHour, 1, false⟩] [essay, reading] "UTC"
    PreferenceValues.default ready (by decide) (by decide) (by decide)
  refine ⟨report, h, accepts.mp ⟨report, h⟩, ?_⟩
  exact List.perm_singleton.mp (missing report h)

/-! More blocks than a preview request holds. -/

theorem lectureTime_eq (minutes : Int) :
    lectureTime minutes = 1789948800000000 + minutes * 60000000 := by
  have base : Zone.utc.dayStart lectureDay = 1789948800000000 := by decide
  unfold lectureTime minute
  rw [base]

theorem minuteBlock_valid (k : Fin 513) :
    WindowValid (lectureTime (540 + k.val)) (lectureTime (541 + k.val)) := by
  have hk := k.isLt
  rw [lectureTime_eq, lectureTime_eq]
  unfold WindowValid SupportedYear minute
  omega

/-- One minute of the reading, `k` minutes after nine. -/
def minuteBlock (k : Fin 513) : PlanBlock :=
  ⟨⟨lectureTime (540 + k.val), lectureTime (541 + k.val), minuteBlock_valid k⟩, 2, false⟩

def crowdedBlocks : List PlanBlock := (List.finRange 513).map minuteBlock

def longReading : TaskRecord where
  toTaskColumns := { reading.toTaskColumns with durationMinutes := 600, deadline := none }
  valid := by decide

def crowdedOpening : TimeWindow := ⟨lectureTime 540, lectureTime 1140, by decide⟩

def crowdedWindow : PlanningWindow where
  startDate := lectureDay
  days := 1
  taskIds := [2]
  availability := [crowdedOpening]
  fixedEvents := []
  planningValid := by decide

theorem crowdedWindow_ready : WindowReady Zone.utc crowdedWindow := by
  refine ⟨?_, by decide, by decide, by decide, List.Pairwise.nil⟩
  unfold HorizonOk
  decide

theorem mem_crowdedBlocks {block : PlanBlock} (h : block ∈ crowdedBlocks) :
    block.taskId = 2 ∧ ∃ k : Int, 0 ≤ k ∧ k < 513 ∧
      block.start = 1789948800000000 + (540 + k) * 60000000 ∧
      block.stop = 1789948800000000 + (541 + k) * 60000000 := by
  obtain ⟨k, -, rfl⟩ := List.mem_map.mp h
  have hk := k.isLt
  exact ⟨rfl, k.val, by omega, by omega, lectureTime_eq _, lectureTime_eq _⟩

theorem minutesOf_map_minuteBlock (ks : List (Fin 513)) :
    minutesOf (ks.map minuteBlock) = ks.length := by
  have each : ∀ k : Fin 513, (minuteBlock k).minutes = 1 := by
    intro k
    have length : (minuteBlock k).stop - (minuteBlock k).start = 1 * minute := by
      change lectureTime (541 + k.val) - lectureTime (540 + k.val) = _
      rw [lectureTime_eq, lectureTime_eq]
      unfold minute
      omega
    unfold TimeWindow.minutes
    rw [length, truncMinutes_mul_minute]
  induction ks with
  | nil => rfl
  | cons k ks ih =>
      rw [List.map_cons, minutesOf_cons, each, ih, List.length_cons]
      omega

theorem crowdedBlocks_valid : ValidLayout Zone.utc crowdedWindow crowdedBlocks [longReading] := by
  have own : blocksOf crowdedBlocks longReading.id = crowdedBlocks :=
    blocksOf_eq_self fun block hb => (mem_crowdedBlocks hb).1
  have first : crowdedWindow.horizonStart Zone.utc = 1789948800000000 := by decide
  have last : crowdedWindow.horizonStop Zone.utc = 1790035200000000 := by decide
  have opens : crowdedOpening.start = 1789948800000000 + 540 * 60000000 := by decide
  have closes : crowdedOpening.stop = 1789948800000000 + 1140 * 60000000 := by decide
  refine ⟨fun block hb => ?_, ?_, ?_, ?_, fun block hb => ?_, fun block hb t hin => ?_, ?_⟩
  · exact ⟨longReading, List.mem_singleton_self _, (mem_crowdedBlocks hb).1.symm, rfl⟩
  · simp only [List.mem_singleton, forall_eq]
    intro _
    rw [own, crowdedBlocks, minutesOf_map_minuteBlock, List.length_finRange]
    decide
  · simp only [List.mem_singleton, forall_eq]
    intro _ hs
    exact absurd hs (by decide)
  · simp only [List.mem_singleton, forall_eq]
    intro block _ _
    exact ⟨by simp [longReading, reading], by simp [longReading]⟩
  · obtain ⟨-, k, hlow, hhigh, hstart, hstop⟩ := mem_crowdedBlocks hb
    rw [first, last, hstart, hstop]
    omega
  · obtain ⟨-, k, hlow, hhigh, hstart, hstop⟩ := mem_crowdedBlocks hb
    refine ⟨⟨crowdedOpening, List.mem_singleton_self _, ?_⟩, by simp [crowdedWindow]⟩
    unfold TimeWindow.Contains at hin ⊢
    rw [hstart, hstop] at hin
    rw [opens, closes]
    omega
  · refine List.pairwise_map.mpr ((List.pairwise_lt_finRange 513).imp fun {a b} hab => ?_)
    have hlt : a.val < b.val := hab
    left
    change lectureTime (541 + a.val) ≤ lectureTime (540 + b.val)
    rw [lectureTime_eq, lectureTime_eq]
    omega

/-- A valid layout of 513 blocks is refused, and not by the application. -/
theorem inspectLayout_crowded :
    WindowReady Zone.utc crowdedWindow ∧ SnapshotMatches crowdedWindow.taskIds [longReading] ∧
    (∀ block ∈ crowdedBlocks, block.taskId ∈ crowdedWindow.taskIds) ∧
    ValidLayout Zone.utc crowdedWindow crowdedBlocks [longReading] ∧
    inspectLayout (fun _ => Zone.utc) crowdedWindow crowdedBlocks [longReading]
      PreferenceValues.default "UTC" = .error .validation := by
  have selected : ∀ block ∈ crowdedBlocks, block.taskId ∈ crowdedWindow.taskIds := by
    intro block hb
    rw [(mem_crowdedBlocks hb).1]
    decide
  refine ⟨crowdedWindow_ready, by decide, selected, crowdedBlocks_valid, ?_⟩
  have active : ¬ ∃ block ∈ crowdedBlocks, ∀ task ∈ [longReading], task.status = .pending →
      block.taskId ≠ task.id := by
    rintro ⟨block, hb, hno⟩
    exact hno longReading (List.mem_singleton_self _) rfl (mem_crowdedBlocks hb).1
  unfold inspectLayout
  rw [raiseIf, if_neg active, ok_bind, PreviewRequest.make_invalid]
  · rfl
  · rintro ⟨hlength, -⟩
    simp [crowdedBlocks] at hlength

end SmartPlanner
