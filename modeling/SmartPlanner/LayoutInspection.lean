import SmartPlanner.PlannerAllocate

/-!
`inspect_layout` accepts exactly the layouts of `LayoutOk`, a description in
terms of time alone: the planner run with every block locked, local midnight
for a clock and no budget adds and drops nothing.
-/

namespace SmartPlanner

open Intervals Outcome Sorting

/-- The horizon of a window: local midnight of its first day and of the day
after its last. -/
def PlanningWindow.horizonStart (window : PlanningWindow) (zone : Zone) : Int :=
  zone.dayStart window.startDate

def PlanningWindow.horizonStop (window : PlanningWindow) (zone : Zone) : Int :=
  zone.dayStart (window.startDate + window.days)

/-- The fixed-event loop accepts the events; the mask plays no part in it. -/
def EventsAccepted (start size : Int) (events : List FixedEvent) : Prop :=
  ∃ accepted, blockEvents start size (sortEvents events) [] (fun _ => false) = .ok accepted

/-- The parts of a window that do not depend on tasks or blocks. -/
structure WindowOk (zone : Zone) (window : PlanningWindow) : Prop where
  horizon : HorizonOk zone window
  availability : ∀ slot ∈ window.availability,
    window.horizonStart zone ≤ slot.start ∧ slot.stop ≤ window.horizonStop zone
  events : EventsAccepted (window.horizonStart zone)
    (truncMinutes (window.horizonStop zone - window.horizonStart zone)) window.fixedEvents

/-- An acceptable layout of a window. -/
structure LayoutOk (zone : Zone) (window : PlanningWindow) (blocks : List PlanBlock)
    (tasks : List TaskRecord) : Prop where
  windowOk : WindowOk zone window
  representable : WindowValid (window.horizonStart zone) (window.horizonStop zone)
  snapshot : SnapshotMatches window.taskIds tasks
  count : blocks.length ≤ 512
  pending : ∀ block ∈ blocks, ∃ task ∈ tasks, task.status = .pending ∧ block.taskId = task.id
  share : ∀ task ∈ tasks, task.status = .pending → ShareOk task (blocksOf blocks task.id)
  allowed : ∀ task ∈ tasks, task.status = .pending → ∀ block ∈ blocksOf blocks task.id,
    BlockAllowed (window.horizonStart zone) (window.horizonStop zone)
      (window.horizonStart zone) window task block.toTimeWindow
  apart : PairwiseApart blocks

/-- Events in order that meet the horizon pass the event loop. -/
theorem blockEvents_total {start size : Int} {events : List FixedEvent} {busy : List Interval}
    {mask : Mask}
    (meets : ∀ event ∈ events, (clip start size event.toTimeWindow).1 <
      (clip start size event.toTimeWindow).2)
    (order : events.Pairwise fun a b => (clip start size a.toTimeWindow).2 ≤
      (clip start size b.toTimeWindow).1)
    (after : ∀ last ∈ busy.getLast?, ∀ event ∈ events,
      last.2 ≤ (clip start size event.toTimeWindow).1) :
    ∃ accepted, blockEvents start size events busy mask = .ok accepted := by
  induction events generalizing busy mask with
  | nil => exact ⟨_, rfl⟩
  | cons event events ih =>
      rw [List.forall_mem_cons] at meets
      rw [List.pairwise_cons] at order
      simp only [blockEvents]
      rw [if_neg (by omega), if_neg]
      · refine ih meets.2 order.2 ?_
        simp only [List.getLast?_append, List.getLast?_singleton, Option.mem_def,
          Option.some_or, Option.some.injEq]
        rintro last rfl
        exact order.1
      · rintro ⟨last, hlast, hlt⟩
        have hle := after last hlast event List.mem_cons_self
        omega

/-- The event loop accepts exactly disjoint events that meet the horizon. -/
theorem HorizonOk.eventsAccepted_iff {zone : Zone} {window : PlanningWindow}
    (horizon : HorizonOk zone window) {events : List FixedEvent} :
    EventsAccepted (window.horizonStart zone)
        (truncMinutes (window.horizonStop zone - window.horizonStart zone)) events ↔
      (∀ event ∈ events,
        event.start < window.horizonStop zone ∧ window.horizonStart zone < event.stop) ∧
      events.Pairwise fun a b => a.toTimeWindow.Apart b.toTimeWindow := by
  obtain ⟨⟨hpos, -⟩, -, hstart, hstop⟩ := horizon
  have whole := dayStart_wholeMinute hstart
  have wholeStop := dayStart_wholeMinute hstop
  change 1 ≤ truncMinutes (window.horizonStop zone - window.horizonStart zone) at hpos
  change window.horizonStart zone % minute = 0 at whole
  change window.horizonStop zone % minute = 0 at wholeStop
  generalize window.horizonStart zone = start at *
  generalize window.horizonStop zone = stop at *
  have hsize : truncMinutes (stop - start) * minute = stop - start := by
    apply truncMinutes_mul
    unfold minute at whole wholeStop ⊢
    omega
  have perm : (sortEvents events).Perm events := sortBy_perm _ _
  have first := fun event : FixedEvent => indicesFrom_fst_mul whole event.toTimeWindow
  have last := fun event : FixedEvent => indicesFrom_snd_mul whole event.toTimeWindow
  constructor
  · rintro ⟨⟨busy, mask⟩, haccepted⟩
    obtain ⟨hbusy, meets, -, horder⟩ := blockEvents_ok haccepted
    have order := horder (by simp [InOrder]) (by simp)
    rw [hbusy, List.nil_append] at order
    have sorted : (sortEvents events).Pairwise fun a b =>
        a.toTimeWindow.Apart b.toTimeWindow := by
      refine (List.pairwise_map.mp order).imp_of_mem fun {a b} ha hb hab => ?_
      have hmeetA := meets a ha
      have hmeetB := meets b hb
      have h₁ := last a
      have h₂ := first b
      left
      unfold clip at hab hmeetA hmeetB
      simp only at hab hmeetA hmeetB
      unfold minute at h₁ h₂
      omega
    refine ⟨fun event hevent => ?_,
      (perm.pairwise_iff fun {_ _} h => TimeWindow.Apart.symm h).mp sorted⟩
    have hmeet := meets event (perm.mem_iff.mpr hevent)
    have h₁ := first event
    have h₂ := last event
    unfold clip at hmeet
    simp only at hmeet
    unfold minute at h₁ h₂ hsize
    omega
  · rintro ⟨meets, apart⟩
    have ordered := sortBy_pairwise (fun event : FixedEvent =>
      toLex (event.start, toLex (event.stop, event.title))) events
    have sorted : (sortEvents events).Pairwise fun a b => a.stop ≤ b.start := by
      refine ordered.imp₂ (fun a b hle hab => ?_)
        (apart.perm perm.symm fun hab => TimeWindow.Apart.symm hab)
      rw [Prod.Lex.toLex_le_toLex] at hle
      have hlt := a.windowValid.2.2
      have hlt' := b.windowValid.2.2
      unfold TimeWindow.Apart at hab
      simp only at hle
      omega
    refine blockEvents_total (fun event hevent => ?_) (sorted.imp fun {a b} hab => ?_) (by simp)
    · have hmeet := meets event (perm.mem_iff.mp hevent)
      have hlt := event.windowValid.2.2
      have h₁ := first event
      have h₂ := last event
      unfold clip minute at *
      simp only
      omega
    · have h₁ := first b
      have h₂ := last a
      unfold clip minute at *
      simp only
      omega

@[simp] theorem blocksOf_map_lock (blocks : List PlanBlock) (taskId : UUID) :
    blocksOf (blocks.map PlanBlock.lock) taskId =
      (blocksOf blocks taskId).map PlanBlock.lock := by
  unfold blocksOf
  rw [List.filter_map]
  rfl

@[simp] theorem minutesOf_map_lock (blocks : List PlanBlock) :
    minutesOf (blocks.map PlanBlock.lock) = minutesOf blocks := by
  simp [minutesOf, PlanBlock.lock, Function.comp_def]

theorem shareOk_map_lock {task : TaskRecord} {blocks : List PlanBlock} :
    ShareOk task (blocks.map PlanBlock.lock) ↔ ShareOk task blocks := by
  simp [ShareOk]

theorem pairwiseApart_map_lock {blocks : List PlanBlock} :
    PairwiseApart (blocks.map PlanBlock.lock) ↔ PairwiseApart blocks := by
  unfold PairwiseApart
  rw [List.pairwise_map]
  rfl

theorem PreviewRequest.make_ok {window : PlanningWindow} {blocks : List PlanBlock}
    {request : PreviewRequest} :
    PreviewRequest.make window blocks = .ok request ↔
      request.toPlanningWindow = window ∧ request.previousBlocks = blocks := by
  unfold PreviewRequest.make
  constructor
  · intro h
    split at h
    · cases h
      exact ⟨rfl, rfl⟩
    · contradiction
  · rintro ⟨rfl, rfl⟩
    rw [dif_pos request.previousValid]

theorem PreviewRequest.make_valid {window : PlanningWindow} {blocks : List PlanBlock}
    (valid : blocks.length ≤ 512 ∧ ∀ block ∈ blocks, block.taskId ∈ window.taskIds) :
    PreviewRequest.make window blocks = .ok ⟨window, blocks, valid⟩ :=
  dif_pos valid

theorem PreviewRequest.make_invalid {window : PlanningWindow} {blocks : List PlanBlock}
    (invalid : ¬ (blocks.length ≤ 512 ∧ ∀ block ∈ blocks, block.taskId ∈ window.taskIds)) :
    PreviewRequest.make window blocks = .error .validation :=
  dif_neg invalid

theorem relabelLockErrors_ok {result : Except PyError PlannerState} {state : PlannerState} :
    relabelLockErrors result = .ok state ↔ result = .ok state := by
  unfold relabelLockErrors
  split
  · split <;> simp
  · rfl

/-- The `missing` loop lists the shortfalls and never raises. -/
theorem foldlM_missingEntry (blocks : List PlanBlock) (tasks : List TaskRecord)
    (listed : List UnscheduledTask) :
    ∃ missing, tasks.foldlM (missingEntry blocks) listed = .ok missing ∧
      missing.map (·.amount) = listed.map (·.amount) ++ tasks.filterMap (shortfall blocks) := by
  induction tasks generalizing listed with
  | nil => exact ⟨listed, rfl, by simp⟩
  | cons task tasks ih =>
      rw [List.foldlM_cons]
      by_cases hless : minutesOf (blocksOf blocks task.id) < task.durationMinutes
      · have hself : shortfall blocks task = some (task.id,
            task.durationMinutes - minutesOf (blocksOf blocks task.id)) := by
          simp only [shortfall]
          rw [if_pos hless]
        have hentry : missingEntry blocks listed task = .ok (listed ++
            [⟨task.id, task.title, task.durationMinutes - minutesOf (blocksOf blocks task.id),
              .notScheduled, UnscheduledReason.notScheduled.message⟩]) := by
          have hless' : minutesOf (blocks.filter (·.taskId = task.id)) <
              task.durationMinutes := hless
          simp only [missingEntry]
          rw [if_pos hless', UnscheduledTask.make_ok.mpr ⟨by omega, rfl⟩]
          rfl
        obtain ⟨missing, hrun, hamount⟩ := ih (listed ++
          [⟨task.id, task.title, task.durationMinutes - minutesOf (blocksOf blocks task.id),
            .notScheduled, UnscheduledReason.notScheduled.message⟩])
        refine ⟨missing, by rw [hentry, ok_bind, hrun], ?_⟩
        rw [hamount, List.filterMap_cons, hself]
        simp [UnscheduledTask.amount]
      · have hself : shortfall blocks task = none := by
          simp only [shortfall]
          rw [if_neg hless]
        have hentry : missingEntry blocks listed task = .ok listed := by
          have hless' : ¬ minutesOf (blocks.filter (·.taskId = task.id)) <
              task.durationMinutes := hless
          simp only [missingEntry]
          rw [if_neg hless']
          rfl
        obtain ⟨missing, hrun, hamount⟩ := ih listed
        refine ⟨missing, by rw [hentry, ok_bind, hrun], ?_⟩
        rw [hamount, List.filterMap_cons, hself]

namespace Planner
variable {p : Planner}

/-- The constructor accepts exactly an acceptable window that is not past. -/
theorem init_iff {request : PreviewRequest} {tasks : List TaskRecord}
    {preferences : PreferenceValues} {zone : Zone} {now : Int} :
    (∃ p, Planner.init request tasks preferences zone now = .ok p) ↔
      zone.localDate now ≤ request.startDate ∧ WindowOk zone request.toPlanningWindow ∧
      SnapshotMatches request.taskIds tasks := by
  constructor
  · rintro ⟨p, hinit⟩
    have grid := init_grid hinit
    obtain ⟨hrequest, -, -, -, -, hstart, hstop⟩ := init_fields hinit
    obtain ⟨hdate, horizon, snapshot, opened, events, available, -, hevents, -⟩ :=
      init_ok.mp hinit
    refine ⟨hdate, ⟨horizon, fun slot hslot => ?_, ?_⟩, snapshot⟩
    · have hin := grid.windows_inside slot (hrequest ▸ hslot)
      have h₁ := indices_fst grid slot
      have h₂ := indices_snd grid slot
      have hend := grid.stop_eq
      unfold PlanningWindow.horizonStart PlanningWindow.horizonStop
      unfold minute at h₁ h₂ hend
      omega
    · obtain ⟨mask, hmask⟩ := blockEvents_mask (fun _ => false) hevents
      exact ⟨_, hmask⟩
  · rintro ⟨hdate, ⟨horizon, hslots, ⟨⟨events, mask⟩, hevents⟩⟩, snapshot⟩
    have whole := dayStart_wholeMinute horizon.2.2.1
    have wholeStop := dayStart_wholeMinute horizon.2.2.2
    have hdiff : (zone.dayStart (request.startDate + request.days) -
        zone.dayStart request.startDate) % minute = 0 := by
      unfold minute at whole wholeStop ⊢
      omega
    have hsize := truncMinutes_mul hdiff
    obtain ⟨opened, hopen⟩ := openWindows_total (zone.dayStart request.startDate)
      (truncMinutes (zone.dayStart (request.startDate + request.days) -
        zone.dayStart request.startDate)) request.availability
      (fun _ => false) (by
        intro slot hslot
        have hin := hslots slot hslot
        have h₁ := indicesFrom_fst_mul whole slot
        have h₂ := indicesFrom_snd_mul whole slot
        unfold PlanningWindow.horizonStart PlanningWindow.horizonStop at hin
        unfold minute at h₁ h₂ hsize
        omega)
    obtain ⟨available, havailable⟩ := blockEvents_mask (opened.fill 0
      (Planner.assemble request tasks preferences zone now events (fun _ => false)).floor
      false) hevents
    exact ⟨_, init_ok.mpr ⟨hdate, horizon, snapshot, opened, events, available, hopen,
      havailable, rfl⟩⟩

section
variable {blocks : List PlanBlock} (locked : p.request.previousBlocks = blocks.map PlanBlock.lock)
include locked

/-- The lock phase over a fully locked layout. -/
theorem locksOk_of_locked (grid : p.Grid)
    (pending : ∀ block ∈ blocks, ∃ task ∈ p.pending, task.id = block.taskId) :
    p.LocksOk ↔
      (∀ task ∈ p.pending, ShareOk task (blocksOf blocks task.id)) ∧
      (∀ task ∈ p.pending, ∀ block ∈ blocksOf blocks task.id,
        p.Fits task block.toTimeWindow) ∧
      PairwiseApart blocks := by
  have own : ∀ taskId, (blocksOf (blocks.map PlanBlock.lock) taskId).filter (·.locked) =
      (blocksOf blocks taskId).map PlanBlock.lock := by
    intro taskId
    rw [blocksOf_map_lock]
    exact List.filter_eq_self.mpr (List.forall_mem_map.mpr fun block _ => rfl)
  have all : lockedBlocks (blocks.map PlanBlock.lock) p.tasks = blocks.map PlanBlock.lock := by
    refine List.filter_eq_self.mpr (List.forall_mem_map.mpr fun block hb => ?_)
    obtain ⟨task, ht, hid⟩ := pending block hb
    obtain ⟨hmem, hpending⟩ := mem_pending.mp ht
    rw [Bool.and_eq_true, List.any_eq_true]
    refine ⟨rfl, task, hmem, ?_⟩
    rw [Bool.and_eq_true, decide_eq_true_eq, decide_eq_true_eq]
    exact ⟨hpending, hid⟩
  rw [locksOk_iff grid, locked, all, pairwiseApart_map_lock, ← and_assoc]
  refine and_congr_left fun _ => ?_
  rw [← forall₂_and]
  refine forall₂_congr fun task _ => ?_
  rw [own, shareOk_map_lock, List.forall_mem_map]
  rfl

end

/-- The preserve phase fails only in the lock loop. -/
theorem preservePrevious_iff (grid : p.Grid) {budget : Int} :
    (∃ state, p.preservePrevious (p.initial budget) = .ok state) ↔ p.LocksOk :=
  ⟨fun ⟨_, h⟩ => (preservePrevious_preserved grid h).1,
    preservePrevious_total grid budget⟩

end Planner

section
variable {zoneInfo : String → Zone} {window : PlanningWindow} {blocks : List PlanBlock}
  {tasks : List TaskRecord} {preferences : PreferenceValues} {timezoneName : String}

/-- What a returned report was computed from. -/
theorem inspectLayout_report {report : LayoutReport}
    (h : inspectLayout zoneInfo window blocks tasks preferences timezoneName = .ok report) :
    LayoutOk (zoneInfo timezoneName) window blocks tasks ∧
    ∃ p : Planner, p.tasks = tasks ∧
      p.stop = window.horizonStop (zoneInfo timezoneName) ∧
      report.horizon.start = window.horizonStart (zoneInfo timezoneName) ∧
      report.horizon.stop = window.horizonStop (zoneInfo timezoneName) ∧
      report.missing.map (·.amount) = p.ordered.filterMap (shortfall blocks) ∧
      report.ignoredTaskIds = p.ignoredTaskIds := by
  unfold inspectLayout at h
  simp only [raiseIf_bind_ok] at h
  simp only [bind_ok, pure_eq_ok, Except.ok.injEq, relabelLockErrors_ok] at h
  obtain ⟨hactive, request, hrequest, p, hinit, state, hpreserve, missing, hmissing,
    horizon, hhorizon, rfl⟩ := h
  have pending : ∀ block ∈ blocks, ∃ task ∈ tasks, task.status = .pending ∧
      block.taskId = task.id := by
    simpa only [not_exists, not_and, not_forall, exists_prop, ne_eq, not_not] using hactive
  have grid := Planner.init_grid hinit
  obtain ⟨hwindow, hblocks⟩ := PreviewRequest.make_ok.mp hrequest
  obtain ⟨hr, -, -, hnow, htasks, hstart, hstop⟩ := Planner.init_fields hinit
  obtain ⟨-, windowOk, snapshot⟩ := Planner.init_iff.mp ⟨p, hinit⟩
  obtain ⟨hhs, hhe⟩ := TimeWindow.make_ok.mp hhorizon
  have pending' : ∀ block ∈ blocks, ∃ task ∈ p.pending, task.id = block.taskId := by
    intro block hb
    obtain ⟨task, ht, hp, hid⟩ := pending block hb
    exact ⟨task, Planner.mem_pending.mpr ⟨htasks ▸ ht, hp⟩, hid.symm⟩
  have locked : p.request.previousBlocks = blocks.map PlanBlock.lock := by rw [hr, hblocks]
  obtain ⟨share, fits, apart⟩ := (Planner.locksOk_of_locked locked grid pending').mp
    (Planner.preservePrevious_preserved grid hpreserve).1
  have hlength := request.previousValid.1
  rw [hblocks, List.length_map] at hlength
  have hs : p.start = window.horizonStart (zoneInfo timezoneName) := by
    rw [hstart, hwindow]
    rfl
  have he : p.stop = window.horizonStop (zoneInfo timezoneName) := by
    rw [hstop, hwindow]
    rfl
  have hn : p.now = window.horizonStart (zoneInfo timezoneName) := by
    rw [hnow, hwindow]
    rfl
  refine ⟨⟨hwindow ▸ windowOk, ?_, hwindow ▸ snapshot, hlength, pending, ?_, ?_, apart⟩,
    p, htasks, he, hhs.trans hs, hhe.trans he, ?_, rfl⟩
  · rw [← hs, ← he, ← hhs, ← hhe]
    exact horizon.windowValid
  · intro task ht hp
    exact share task (Planner.mem_pending.mpr ⟨htasks ▸ ht, hp⟩)
  · intro task ht hp block hb
    have hfit := fits task (Planner.mem_pending.mpr ⟨htasks ▸ ht, hp⟩) block hb
    have allowed := (Planner.fits_iff grid).mp hfit
    rwa [hs, he, hn, hr, hwindow] at allowed
  · obtain ⟨listed, hlisted, hamount⟩ := foldlM_missingEntry blocks p.ordered []
    have same : listed = missing := by
      rw [hlisted] at hmissing
      exact Except.ok.inj hmissing
    simpa [same] using hamount

/-- Acceptable layouts are accepted. -/
theorem inspectLayout_total (preferences : PreferenceValues)
    (layout : LayoutOk (zoneInfo timezoneName) window blocks tasks) :
    ∃ report, inspectLayout zoneInfo window blocks tasks preferences timezoneName =
      .ok report := by
  have selected : ∀ block ∈ blocks, block.taskId ∈ window.taskIds := by
    intro block hb
    obtain ⟨task, ht, -, hid⟩ := layout.pending block hb
    exact hid ▸ layout.snapshot.2.1 task ht
  have requestValid : (blocks.map PlanBlock.lock).length ≤ 512 ∧
      ∀ block ∈ blocks.map PlanBlock.lock, block.taskId ∈ window.taskIds := by
    refine ⟨by simpa using layout.count, fun block hb => ?_⟩
    obtain ⟨original, ho, rfl⟩ := List.mem_map.mp hb
    exact selected original ho
  obtain ⟨p, hinit⟩ : ∃ p, Planner.init ⟨window, blocks.map PlanBlock.lock, requestValid⟩ tasks
      preferences (zoneInfo timezoneName) ((zoneInfo timezoneName).dayStart window.startDate) =
        .ok p :=
    Planner.init_iff.mpr
      ⟨le_of_eq layout.windowOk.horizon.2.1, layout.windowOk, layout.snapshot⟩
  have grid := Planner.init_grid hinit
  obtain ⟨hr, -, -, hnow, htasks, hstart, hstop⟩ := Planner.init_fields hinit
  have member : ∀ task, task ∈ p.pending → task ∈ tasks ∧ task.status = .pending :=
    fun task ht => htasks ▸ Planner.mem_pending.mp ht
  have locksOk : p.LocksOk := by
    refine (Planner.locksOk_of_locked (by rw [hr]) grid ?_).mpr ⟨?_, ?_, layout.apart⟩
    · intro block hb
      obtain ⟨task, ht, hp, hid⟩ := layout.pending block hb
      exact ⟨task, Planner.mem_pending.mpr ⟨htasks ▸ ht, hp⟩, hid.symm⟩
    · intro task ht
      exact layout.share task (member task ht).1 (member task ht).2
    · intro task ht block hb
      refine (Planner.fits_iff grid).mpr ?_
      rw [hstart, hstop, hnow, hr]
      exact layout.allowed task (member task ht).1 (member task ht).2 block hb
  obtain ⟨state, hpreserve⟩ := Planner.preservePrevious_total grid 0 locksOk
  obtain ⟨missing, hmissing, -⟩ := foldlM_missingEntry blocks p.ordered []
  have hhorizon : TimeWindow.make p.start p.stop = .ok ⟨_, _, layout.representable⟩ :=
    TimeWindow.make_ok.mpr ⟨hstart.symm, hstop.symm⟩
  have active : ¬ ∃ block ∈ blocks, ∀ task ∈ tasks, task.status = .pending →
      block.taskId ≠ task.id := by
    rintro ⟨block, hb, hno⟩
    obtain ⟨task, ht, hp, hid⟩ := layout.pending block hb
    exact hno task ht hp hid
  refine ⟨⟨⟨_, _, layout.representable⟩, missing, p.ignoredTaskIds, p.warnings state⟩, ?_⟩
  unfold inspectLayout
  rw [raiseIf_bind_ok]
  refine ⟨active, ?_⟩
  rw [PreviewRequest.make_valid requestValid, ok_bind]
  simp only
  rw [hinit, ok_bind, relabelLockErrors_ok.mpr hpreserve, ok_bind, hmissing, ok_bind,
    hhorizon]
  rfl

end

end SmartPlanner
