import SmartPlanner.System

/-!
The invariant of a reachable store. Each version of a schedule is a layout that
was accepted for the records its versions name; the records can only move on,
so a version that is current again was accepted for exactly the present ones.
-/

namespace SmartPlanner

open Histories Outcome Tables ScheduleRepository

/-- The version row that the cursor of a schedule names. -/
def CurrentRow (store : Store) (schedule : ScheduleRow) (row : VersionRow) : Prop :=
  row ∈ historyRows store schedule.id ∧ row.revision = schedule.currentRevision

/-- The rows a candidate names exist, at its versions or later ones. -/
structure Known (store : Store) (owner : UUID) (candidate : Candidate) : Prop where
  tasks : ∀ entry ∈ candidate.taskVersions, ∃ row ∈ store.tasks,
    row.userId = owner ∧ row.id = entry.1 ∧ entry.2 ≤ row.version
  preferences : ∃ row ∈ store.preferences,
    row.userId = owner ∧ candidate.preferenceVersion ≤ row.version

/-- A stored version: its layout is sound for good, and is what the checker
reports whenever its sources are the present ones. -/
structure EntryOk (zoneInfo : String → Zone) (store : Store) (schedule : ScheduleRow)
    (row : VersionRow) : Prop where
  owner : row.userId = schedule.userId
  horizonStart : schedule.horizon.start =
    row.state.content.toPlanningWindow.horizonStart (zoneInfo schedule.timezone)
  horizonStop : schedule.horizon.stop =
    row.state.content.toPlanningWindow.horizonStop (zoneInfo schedule.timezone)
  sound : ContentSound (zoneInfo schedule.timezone) row.state.content
  known : Known store schedule.userId row.state.toCandidate
  derived : ∀ tasks values,
    Current store schedule.userId row.state.toCandidate tasks values →
    ∃ report, inspectLayout zoneInfo row.state.content.toPlanningWindow row.state.content.blocks
        tasks values schedule.timezone = .ok report ∧
      report.horizon = schedule.horizon ∧
      row.state = savedState row.state.toCandidate tasks report

/-- A replace once led from the lower version to the upper: a locked placement
that the upper one drops belonged to a task that was not open, and the task has
to change before it can be open again. -/
def Joined (store : Store) (owner : UUID) (lower upper : VersionRow) : Prop :=
  ∀ block ∈ lower.state.content.blocks, block.locked = true →
    blockKey block ∉ upper.state.content.blocks.map blockKey →
    ∀ row ∈ store.tasks, row.userId = owner → row.id = block.taskId →
      OpenRow row → (row.id, row.version) ∉ lower.state.taskVersions

structure ScheduleOk (zoneInfo : String → Zone) (store : Store) (schedule : ScheduleRow) :
    Prop where
  account : ∃ user ∈ store.users, user.id = schedule.userId
  cursor : ∃ row, CurrentRow store schedule row
  positive : 1 ≤ schedule.version
  bounded : ∀ row ∈ historyRows store schedule.id, row.revision ≤ schedule.version
  short : (historyRows store schedule.id).length ≤ historyLimit
  entries : ∀ row ∈ historyRows store schedule.id, EntryOk zoneInfo store schedule row
  sameDates : ∀ a ∈ historyRows store schedule.id, ∀ b ∈ historyRows store schedule.id,
    a.state.content.startDate = b.state.content.startDate ∧
    a.state.content.days = b.state.content.days
  joined : (historyRows store schedule.id).IsChain (Joined store schedule.userId)

structure StoreOk (zoneInfo : String → Zone) (store : Store) : Prop where
  sources : SourcesValid store
  schedules : ∀ schedule ∈ store.schedules, ScheduleOk zoneInfo store schedule
  versionsOwned : ∀ row ∈ store.versions, ∃ schedule ∈ store.schedules,
    schedule.id = row.scheduleId
  allocationsOwned : ∀ row ∈ store.allocations, ∃ schedule ∈ store.schedules,
    schedule.id = row.scheduleId ∧ schedule.userId = row.userId
  allocated : ∀ schedule ∈ store.schedules, ∀ current, CurrentRow store schedule current →
    ∀ taskId, (⟨schedule.userId, taskId, schedule.id⟩ : AllocationRow) ∈ store.allocations ↔
      ∃ block ∈ current.state.content.blocks, block.taskId = taskId
  apart : ∀ a ∈ store.schedules, ∀ b ∈ store.schedules, a.userId = b.userId → a.id ≠ b.id →
    a.horizon.Apart b.horizon

theorem CurrentRow.unique {store : Store} {schedule : ScheduleRow} {a b : VersionRow}
    (ha : CurrentRow store schedule a) (hb : CurrentRow store schedule b) : a = b :=
  historyRows_unique ha.1 hb.1 (ha.2.trans hb.2.symm)

theorem currentRow_congr {store store' : Store} {schedule : ScheduleRow}
    (h : historyRows store' schedule.id = historyRows store schedule.id) {row : VersionRow} :
    CurrentRow store' schedule row ↔ CurrentRow store schedule row := by
  unfold CurrentRow
  rw [h]

/-! Later sources. -/

section
variable {store store' : Store} {owner : UUID}

/-- The old row under a known id, and how the present one relates to it. -/
theorem Known.row {candidate : Candidate} (known : Known store owner candidate)
    (grow : SourcesEvolve store store') {entry : UUID × Nat}
    (hentry : entry ∈ candidate.taskVersions) {row' : TaskRow} (hrow' : row' ∈ store'.tasks)
    (hid : row'.id = entry.1) :
    row' ∈ store.tasks ∨ entry.2 < row'.version := by
  obtain ⟨row, hrow, -, hsame, hle⟩ := known.tasks entry hentry
  rcases grow.tasks.cases hrow hrow' (hid.trans hsame.symm) with rfl | hlater
  · exact Or.inl hrow
  · exact Or.inr (Nat.lt_of_le_of_lt hle hlater.2)

theorem Known.mono {candidate : Candidate} (known : Known store owner candidate)
    (grow : SourcesEvolve store store') : Known store' owner candidate := by
  refine ⟨fun entry hentry => ?_, ?_⟩
  · obtain ⟨row, hrow, howner, hid, hle⟩ := known.tasks entry hentry
    obtain ⟨row', hrow', hkey, rfl | hlater⟩ := grow.tasks row hrow
    · exact ⟨row', hrow', howner, hid, hle⟩
    · exact ⟨row', hrow', hlater.1.trans howner, hkey.trans hid, hle.trans hlater.2.le⟩
  · obtain ⟨row, hrow, howner, hle⟩ := known.preferences
    obtain ⟨row', hrow', hkey, rfl | hlater⟩ := grow.preferences row hrow
    · exact ⟨row', hrow', howner, hle⟩
    · exact ⟨row', hrow', hkey.trans howner, hle.trans (Nat.le_of_lt hlater)⟩

/-- A known candidate that is current later was current before, with the same
records. -/
theorem Current.before {candidate : Candidate} {tasks : List TaskRecord}
    {values : PreferenceValues} (current : Current store' owner candidate tasks values)
    (known : Known store owner candidate) (grow : SourcesEvolve store store') :
    Current store owner candidate tasks values := by
  refine ⟨⟨current.records.ids_eq, fun task ht => ?_⟩, current.versions, ?_⟩
  · obtain ⟨row', hrow', howner, hlive, hcolumns⟩ := current.records.stored task ht
    have hid : row'.id = task.id := by rw [hcolumns]
    have hversion : row'.version = task.version := by rw [hcolumns]
    rcases known.row grow (current.versions task ht) hrow' hid with hrow | hlt
    · exact ⟨row', hrow, howner, hlive, hcolumns⟩
    · simp only at hlt
      omega
  · obtain ⟨row', hrow', howner, hversion, hvalues⟩ := current.preferences
    obtain ⟨row, hrow, howner', hle⟩ := known.preferences
    rcases grow.preferences.cases hrow hrow' (howner.trans howner'.symm) with rfl | hlater
    · exact ⟨row', hrow, howner, hversion, hvalues⟩
    · unfold PreferenceRow.Later at hlater
      omega

theorem EntryOk.mono {zoneInfo : String → Zone} {schedule : ScheduleRow} {row : VersionRow}
    (entry : EntryOk zoneInfo store schedule row) (grow : SourcesEvolve store store') :
    EntryOk zoneInfo store' schedule row :=
  { entry with
    known := entry.known.mono grow
    derived := fun tasks values current =>
      entry.derived tasks values (current.before entry.known grow) }

theorem Joined.mono {lower upper : VersionRow} (joined : Joined store owner lower upper)
    (known : Known store owner lower.state.toCandidate) (grow : SourcesEvolve store store') :
    Joined store' owner lower upper := by
  intro block hb hlocked hdropped row' hrow' howner hid hopen hnamed
  rcases known.row grow hnamed hrow' rfl with hrow | hlt
  · exact joined block hb hlocked hdropped row' hrow howner hid hopen hnamed
  · exact Nat.lt_irrefl _ hlt

theorem ScheduleOk.mono {zoneInfo : String → Zone} {schedule : ScheduleRow}
    (ok : ScheduleOk zoneInfo store schedule) (grow : SourcesEvolve store store')
    (same : historyRows store' schedule.id = historyRows store schedule.id) :
    ScheduleOk zoneInfo store' schedule := by
  obtain ⟨user, huser, hid⟩ := ok.account
  obtain ⟨row, hrow⟩ := ok.cursor
  refine ⟨⟨user, grow.users user huser, hid⟩, ⟨row, (currentRow_congr same).mpr hrow⟩,
    ok.positive, same ▸ ok.bounded, same ▸ ok.short, ?_, same ▸ ok.sameDates, ?_⟩
  · rw [same]
    exact fun row hrow => (ok.entries row hrow).mono grow
  · rw [same]
    exact ok.joined.imp_of_mem_imp fun lower upper hlower _ joined =>
      joined.mono (ok.entries lower hlower).known grow

end

theorem storeOk_empty (zoneInfo : String → Zone) : StoreOk zoneInfo Store.empty where
  sources := ⟨fun row h => absurd h (Table.not_mem_empty row),
    fun row h => absurd h (Table.not_mem_empty row)⟩
  schedules row h := absurd h (Table.not_mem_empty row)
  versionsOwned row h := absurd h (Table.not_mem_empty row)
  allocationsOwned row h := absurd h (Table.not_mem_empty row)
  allocated row h := absurd h (Table.not_mem_empty row)
  apart row h := absurd h (Table.not_mem_empty row)

/-- A change of sources. -/
theorem StoreOk.sourcesGrow {zoneInfo : String → Zone} {store store' : Store}
    (ok : StoreOk zoneInfo store) (grow : SourcesGrow store store') : StoreOk zoneInfo store' := by
  have same : ∀ id, historyRows store' id = historyRows store id :=
    historyRows_congr grow.versions
  refine ⟨grow.valid ok.sources, ?_, ?_, ?_, ?_, ?_⟩
  · rw [grow.schedules]
    exact fun schedule h => (ok.schedules schedule h).mono grow.toSourcesEvolve (same _)
  · rw [grow.versions, grow.schedules]
    exact ok.versionsOwned
  · rw [grow.allocations, grow.schedules]
    exact ok.allocationsOwned
  · rw [grow.allocations, grow.schedules]
    exact fun schedule h current hcurrent =>
      ok.allocated schedule h current ((currentRow_congr (same _)).mp hcurrent)
  · rw [grow.schedules]
    exact ok.apart

theorem Commit.evolve {store store' : Store} {schedule : ScheduleRow} {state : Candidate}
    {receipt : CommandRow} (commit : Commit store store' schedule state receipt) :
    SourcesEvolve store store' :=
  .of_eq commit.users commit.tasks commit.preferences

/-- A commit, given the schedule it leaves. -/
theorem StoreOk.commit {zoneInfo : String → Zone} {store store' : Store}
    {schedule : ScheduleRow} {state : Candidate} {receipt : CommandRow}
    (ok : StoreOk zoneInfo store) (commit : Commit store store' schedule state receipt)
    (sameOwner : ∀ row ∈ store.schedules, row.id = schedule.id → row.userId = schedule.userId)
    (scheduleOk : ScheduleOk zoneInfo store' schedule)
    (current : ∃ row, CurrentRow store' schedule row ∧ row.state.toCandidate = state)
    (separate : ∀ row ∈ store.schedules, row.id ≠ schedule.id → row.userId = schedule.userId →
      row.horizon.Apart schedule.horizon) : StoreOk zoneInfo store' := by
  obtain ⟨now, hnow, hstate⟩ := current
  have other : ∀ row ∈ store.schedules, row.id ≠ schedule.id → row ∈ store'.schedules :=
    fun row hrow hne => (commit.schedules row).mpr (Or.inl ⟨hrow, hne⟩)
  have itself : schedule ∈ store'.schedules := (commit.schedules schedule).mpr (Or.inr rfl)
  refine ⟨commit.evolve.valid ok.sources, fun row hrow => ?_, fun row hrow => ?_,
    fun row hrow => ?_, fun row hrow current hcurrent taskId => ?_,
    fun a ha b hb howner hne => ?_⟩
  · rcases (commit.schedules row).mp hrow with ⟨hold, hne⟩ | rfl
    · exact (ok.schedules row hold).mono commit.evolve (commit.otherHistories row.id hne)
    · exact scheduleOk
  · by_cases hid : row.scheduleId = schedule.id
    · exact ⟨schedule, itself, hid.symm⟩
    · have hin : row ∈ historyRows store' row.scheduleId := mem_historyRows.mpr ⟨hrow, rfl⟩
      rw [commit.otherHistories _ hid] at hin
      obtain ⟨old, hold, hsame⟩ := ok.versionsOwned row (mem_historyRows.mp hin).1
      exact ⟨old, other old hold (hsame ▸ hid), hsame⟩
  · rcases (commit.allocations row).mp hrow with ⟨hold, hne⟩ | ⟨howner, hid, -⟩
    · obtain ⟨old, hmem, hid, howner⟩ := ok.allocationsOwned row hold
      refine ⟨old, other old hmem fun heq => hne ⟨?_, ?_⟩, hid, howner⟩
      · rw [← howner]
        exact sameOwner old hmem heq
      · rw [← hid, heq]
    · exact ⟨schedule, itself, hid.symm, howner.symm⟩
  · rw [commit.allocations]
    rcases (commit.schedules row).mp hrow with ⟨hold, hne⟩ | rfl
    · have hcurrent := (currentRow_congr (commit.otherHistories row.id hne)).mp hcurrent
      rw [← ok.allocated row hold current hcurrent taskId]
      simp [hne]
    · rw [hcurrent.unique hnow, hstate]
      simp
  · rcases (commit.schedules a).mp ha with ⟨hold, hida⟩ | rfl <;>
      rcases (commit.schedules b).mp hb with ⟨hold', hidb⟩ | rfl
    · exact ok.apart a hold b hold' howner hne
    · exact separate a hold hida howner
    · exact (separate b hold' hidb howner.symm).symm
    · exact absurd rfl hne

end SmartPlanner
