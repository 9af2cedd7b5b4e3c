import SmartPlanner.ScheduleSources

/-!
What `_validate` accepts: the placement rules of `protect_placements`, and the
facts about a content that an accepted layout fixes for good because they name
no task, no version and no clock.
-/

namespace SmartPlanner

open Intervals Outcome Sorting Tables ScheduleRepository

/-- The placement rules between the layout in force and the next one. -/
structure PlacementsKept (previous candidate : List PlanBlock) (live : List TaskRow)
    (now : Int) : Prop where
  kept : ∀ block ∈ previous, ∀ row, liveRow live block.taskId = some row → OpenRow row →
    blockKey block ∉ candidate.map blockKey → block.locked = false ∧ now ≤ block.start
  notBackdated : ∀ block ∈ candidate, block.start < now →
    blockKey block ∈ previous.map blockKey

theorem protectBlock_ok {candidate : List PlanBlock} {live : List TaskRow} {now : Int}
    {block : PlanBlock} :
    protectBlock candidate live now block = .ok () ↔
      ∀ row, liveRow live block.taskId = some row → OpenRow row →
        blockKey block ∉ candidate.map blockKey → block.locked = false ∧ now ≤ block.start := by
  unfold protectBlock
  cases hrow : liveRow live block.taskId with
  | none => simp
  | some row =>
      simp only [Option.some.injEq, forall_eq']
      by_cases hmoved : OpenRow row ∧ blockKey block ∉ candidate.map blockKey
      · rw [if_pos hmoved, raiseIf_bind_ok, raiseIf_ok, Bool.not_eq_true, not_lt]
        exact ⟨fun h _ _ => h, fun h => h hmoved.1 hmoved.2⟩
      · rw [if_neg hmoved]
        refine ⟨fun _ hopen hkey => absurd ⟨hopen, hkey⟩ hmoved, fun _ => rfl⟩

theorem protectPlacements_ok {previous candidate : List PlanBlock} {live : List TaskRow}
    {now : Int} :
    protectPlacements previous candidate live now = .ok () ↔
      PlacementsKept previous candidate live now := by
  unfold protectPlacements
  rw [bind_ok]
  have loop := @forM_ok _ _ (protectBlock candidate live now) previous
  simp only [protectBlock_ok] at loop
  constructor
  · rintro ⟨u, hloop, hpast⟩
    rw [raiseIf_ok] at hpast
    refine ⟨loop.mp hloop, fun block hb hlt => ?_⟩
    by_contra hno
    exact hpast ⟨block, hb, hlt, hno⟩
  · rintro ⟨kept, notBackdated⟩
    refine ⟨(), loop.mpr kept, raiseIf_ok.mpr ?_⟩
    rintro ⟨block, hb, hlt, hno⟩
    exact hno (notBackdated block hb hlt)

/-- The blocks and the fixed events of a content. -/
def ScheduleContent.items (content : ScheduleContent) : List TimeWindow :=
  content.blocks.map (·.toTimeWindow) ++ content.fixedEvents.map (·.toTimeWindow)

/-- What an accepted content satisfies whatever happens to its sources. -/
structure ContentSound (zone : Zone) (content : ScheduleContent) : Prop where
  horizonOk : HorizonOk zone content.toPlanningWindow
  representable : WindowValid (content.toPlanningWindow.horizonStart zone)
    (content.toPlanningWindow.horizonStop zone)
  apart : content.items.Pairwise TimeWindow.Apart
  inside : ∀ item ∈ content.items, content.toPlanningWindow.horizonStart zone ≤ item.start ∧
    item.stop ≤ content.toPlanningWindow.horizonStop zone

theorem LayoutOk.contentSound {zone : Zone} {content : ScheduleContent}
    {tasks : List TaskRecord}
    (layout : LayoutOk zone content.toPlanningWindow content.blocks tasks)
    (inside : ∀ event ∈ content.fixedEvents,
      content.toPlanningWindow.horizonStart zone ≤ event.start ∧
      event.stop ≤ content.toPlanningWindow.horizonStop zone) :
    ContentSound zone content := by
  have allowed : ∀ block ∈ content.blocks, ∃ task ∈ tasks,
      BlockAllowed (content.toPlanningWindow.horizonStart zone)
        (content.toPlanningWindow.horizonStop zone)
        (content.toPlanningWindow.horizonStart zone) content.toPlanningWindow task
        block.toTimeWindow := by
    intro block hb
    obtain ⟨task, ht, hp, hid⟩ := layout.pending block hb
    exact ⟨task, ht, layout.allowed task ht hp block (mem_blocksOf.mpr ⟨hb, hid⟩)⟩
  refine ⟨layout.windowOk.horizon, layout.representable, ?_, ?_⟩
  · refine List.pairwise_append.mpr ⟨?_, ?_, ?_⟩
    · exact List.pairwise_map.mpr layout.apart
    · exact List.pairwise_map.mpr
        (layout.windowOk.horizon.eventsAccepted_iff.mp layout.windowOk.events).2
    · intro a ha b hb
      obtain ⟨block, hblock, rfl⟩ := List.mem_map.mp ha
      obtain ⟨event, hevent, rfl⟩ := List.mem_map.mp hb
      obtain ⟨task, -, hallowed⟩ := allowed block hblock
      exact hallowed.apartEvents event hevent
  · intro item hitem
    rcases List.mem_append.mp hitem with h | h
    · obtain ⟨block, hblock, rfl⟩ := List.mem_map.mp h
      obtain ⟨task, -, hallowed⟩ := allowed block hblock
      exact hallowed.inside
    · obtain ⟨event, hevent, rfl⟩ := List.mem_map.mp h
      exact inside event hevent

/-- Everything an accepted validation checked. -/
structure Validated (zoneInfo : String → Zone) (store : Store) (owner : UUID)
    (candidate : Candidate) (zone : String) (previous : Option Candidate) (now : Int)
    (tasks : List TaskRecord) (values : PreferenceValues) (report : LayoutReport) : Prop where
  current : Current store owner candidate tasks values
  notPast : previous = none → (zoneInfo zone).localDate now ≤ candidate.content.startDate
  sameHorizon : ∀ old ∈ previous, candidate.content.startDate = old.content.startDate ∧
    candidate.content.days = old.content.days
  placements : PlacementsKept ((previous.map (·.content.blocks)).getD [])
    candidate.content.blocks (liveRows store owner candidate previous) now
  inspected : inspectLayout zoneInfo candidate.content.toPlanningWindow
    candidate.content.blocks tasks values zone = .ok report
  eventsInside : ∀ event ∈ candidate.content.fixedEvents,
    report.horizon.start ≤ event.start ∧ event.stop ≤ report.horizon.stop

theorem validate_ok {zoneInfo : String → Zone} {store : Store} {owner : UUID}
    {candidate : Candidate} {zone : String} {previous : Option Candidate} {now : Int}
    {state : SavedState} {horizon : TimeWindow} :
    validate zoneInfo store owner candidate zone previous now = .ok (state, horizon) ↔
      ∃ tasks values report,
        Validated zoneInfo store owner candidate zone previous now tasks values report ∧
        state = savedState candidate tasks report ∧ horizon = report.horizon := by
  unfold validate
  rw [bind_ok]
  constructor
  · rintro ⟨⟨tasks, record, live⟩, hsources, h⟩
    simp only [raiseIf_bind_ok] at h
    simp only [bind_ok, pure_eq_ok, Except.ok.injEq, Prod.mk.injEq] at h
    obtain ⟨hpast, hchanged, _, hprotect, report, hinspect, u, hevents, rfl, rfl⟩ := h
    obtain ⟨current, rfl⟩ := sources_ok.mp ⟨record, hsources, rfl⟩
    refine ⟨tasks, record.toPreferenceValues, report, ⟨current, fun hnone => ?_,
      fun old ho => ?_, protectPlacements_ok.mp hprotect, hinspect, fun event he => ?_⟩,
      rfl, rfl⟩
    · by_contra hlt
      exact hpast ⟨hnone, by omega⟩
    · by_contra hne
      refine hchanged ⟨old, ho, fun heq => hne ?_⟩
      simpa using heq
    · rw [raiseIf_ok] at hevents
      by_contra hout
      exact hevents ⟨event, he, by omega⟩
  · rintro ⟨tasks, values, report, valid, rfl, rfl⟩
    obtain ⟨record, hsources, rfl⟩ := sources_ok.mpr ⟨valid.current, rfl⟩
    refine ⟨(tasks, record, _), hsources, ?_⟩
    simp only [raiseIf_bind_ok]
    refine ⟨?_, ?_, ?_⟩
    · rintro ⟨hnone, hlt⟩
      have := valid.notPast hnone
      omega
    · rintro ⟨old, ho, hne⟩
      have hsame := valid.sameHorizon old ho
      exact hne (by rw [hsame.1, hsame.2])
    · rw [protectPlacements_ok.mpr valid.placements, ok_bind, valid.inspected, ok_bind,
        raiseIf_bind_ok]
      refine ⟨?_, rfl⟩
      rintro ⟨event, he, hout⟩
      have := valid.eventsInside event he
      omega

theorem Validated.contentSound {zoneInfo : String → Zone} {store : Store} {owner : UUID}
    {candidate : Candidate} {zone : String} {previous : Option Candidate} {now : Int}
    {tasks : List TaskRecord} {values : PreferenceValues} {report : LayoutReport}
    (valid : Validated zoneInfo store owner candidate zone previous now tasks values report) :
    ContentSound (zoneInfo zone) candidate.content := by
  obtain ⟨layout, p, -, -, hstart, hstop, -⟩ := inspectLayout_report valid.inspected
  apply layout.contentSound
  intro event he
  rw [← hstart, ← hstop]
  exact valid.eventsInside event he

end SmartPlanner
