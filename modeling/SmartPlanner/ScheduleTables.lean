import SmartPlanner.ScheduleValidation

/-!
What the statements of a schedule command do to their tables: the ordered
history of each schedule, the rows of the allocation table, the receipt and the
cursor.
-/

namespace SmartPlanner

open Outcome Sorting Tables ScheduleRepository

theorem mem_historyRows {store : Store} {scheduleId : UUID} {row : VersionRow} :
    row ∈ historyRows store scheduleId ↔ row ∈ store.versions ∧ row.scheduleId = scheduleId := by
  simp [historyRows, Table.mem_select]

/-- Within one schedule the revisions are distinct. -/
theorem select_revisions_distinct (store : Store) (scheduleId : UUID) :
    ((store.versions.select fun row => row.scheduleId = scheduleId).map (·.revision)).Nodup := by
  have distinct := store.versions.select_distinct fun row => row.scheduleId = scheduleId
  rw [List.Nodup, List.pairwise_map] at distinct ⊢
  refine distinct.imp_of_mem fun {a b} ha hb hab heq => hab ?_
  have hida := (Table.mem_select.mp ha).2
  have hidb := (Table.mem_select.mp hb).2
  simp only [decide_eq_true_eq] at hida hidb
  rw [hida, hidb, heq]

theorem historyRows_increasing (store : Store) (scheduleId : UUID) :
    (historyRows store scheduleId).Pairwise fun a b => a.revision < b.revision :=
  sortBy_strict (select_revisions_distinct store scheduleId)

theorem historyRows_revisions_nodup (store : Store) (scheduleId : UUID) :
    ((historyRows store scheduleId).map (·.revision)).Nodup := by
  rw [List.Nodup, List.pairwise_map]
  exact (historyRows_increasing store scheduleId).imp fun h => Nat.ne_of_lt h

/-- Rows of one schedule with one revision are the same row. -/
theorem historyRows_unique {store : Store} {scheduleId : UUID} {a b : VersionRow}
    (ha : a ∈ historyRows store scheduleId) (hb : b ∈ historyRows store scheduleId)
    (h : a.revision = b.revision) : a = b :=
  List.inj_on_of_nodup_map (historyRows_revisions_nodup store scheduleId) ha hb h

theorem header_ok {store : Store} {owner scheduleId : UUID} {found : ScheduleHeader} :
    header store owner scheduleId = .ok found ↔
      ∃ current : VersionRow, found.schedule ∈ store.schedules ∧
        found.schedule.id = scheduleId ∧ found.schedule.userId = owner ∧
        current ∈ historyRows store scheduleId ∧
        current.revision = found.schedule.currentRevision ∧ found.state = current.state ∧
        found.canUndo = (store.versions.rows.any fun row =>
          row.scheduleId = scheduleId && row.revision < found.schedule.currentRevision) ∧
        found.canRedo = (store.versions.rows.any fun row =>
          row.scheduleId = scheduleId && found.schedule.currentRevision < row.revision) := by
  unfold header
  constructor
  · intro h
    split at h
    · contradiction
    · next schedule hschedule =>
        split at h
        · contradiction
        · next current hcurrent =>
            cases h
            have hguard := List.find?_some hschedule
            simp only [Bool.and_eq_true, decide_eq_true_eq] at hguard
            obtain ⟨hmem, hkey⟩ := Table.find?_eq_some.mp hcurrent
            rw [Prod.mk.injEq] at hkey
            exact ⟨current, List.mem_of_find?_eq_some hschedule, hguard.1, hguard.2,
              mem_historyRows.mpr ⟨hmem, hkey.1⟩, hkey.2, rfl, rfl, rfl⟩
  · rintro ⟨current, hmem, rfl, rfl, hcurrent, hrevision, hstate, hundo, hredo⟩
    obtain ⟨hversion, hid⟩ := mem_historyRows.mp hcurrent
    have hfind : store.schedules.rows.find? (fun row => decide (row.id = found.schedule.id) &&
        decide (row.userId = found.schedule.userId)) = some found.schedule := by
      cases hfind : store.schedules.rows.find? fun row => decide (row.id = found.schedule.id) &&
          decide (row.userId = found.schedule.userId) with
      | none =>
          rw [List.find?_eq_none] at hfind
          exact absurd (by simp) (hfind found.schedule hmem)
      | some other =>
          have hguard := List.find?_some hfind
          simp only [Bool.and_eq_true, decide_eq_true_eq] at hguard
          rw [store.schedules.eq_of_key (List.mem_of_find?_eq_some hfind) hmem hguard.1]
    have hkey : store.versions.find? (found.schedule.id, found.schedule.currentRevision) =
        some current :=
      Table.find?_eq_some.mpr ⟨hversion, by rw [hid, hrevision]⟩
    rw [hfind]
    simp only [hkey]
    rw [← hundo, ← hredo, ← hstate]

theorem header_total {store : Store} {schedule : ScheduleRow} {current : VersionRow}
    (present : schedule ∈ store.schedules) (version : current ∈ historyRows store schedule.id)
    (revision : current.revision = schedule.currentRevision) :
    ∃ found, header store schedule.userId schedule.id = .ok found ∧
      found.schedule = schedule ∧ found.state = current.state :=
  ⟨⟨schedule, current.state,
      store.versions.rows.any fun row =>
        row.scheduleId = schedule.id && row.revision < schedule.currentRevision,
      store.versions.rows.any fun row =>
        row.scheduleId = schedule.id && schedule.currentRevision < row.revision⟩,
    header_ok.mpr ⟨current, present, rfl, rfl, version, revision, rfl, rfl, rfl⟩, rfl, rfl⟩

theorem mem_allocatedIds {state : Candidate} {taskId : UUID} :
    taskId ∈ allocatedIds state ↔ ∃ block ∈ state.content.blocks, block.taskId = taskId := by
  simp [allocatedIds]

theorem allocatedIds_nodup (state : Candidate) : (allocatedIds state).Nodup :=
  (sortBy_perm id _).nodup_iff.mpr (List.nodup_dedup _)

/-- `_allocations` fails only on a task held by another schedule, and otherwise
makes the rows of the schedule exactly the tasks that have a block. -/
theorem allocations_ok {store store' : Store} {owner scheduleId : UUID} {state : Candidate}
    (h : allocations store owner scheduleId state = .ok store') :
    (∀ row ∈ store.allocations, row.userId = owner →
      (∃ block ∈ state.content.blocks, block.taskId = row.taskId) →
      row.scheduleId = scheduleId) ∧
    (∀ row, row ∈ store'.allocations ↔
      (row ∈ store.allocations ∧ ¬ (row.userId = owner ∧ row.scheduleId = scheduleId)) ∨
      (row.userId = owner ∧ row.scheduleId = scheduleId ∧
        ∃ block ∈ state.content.blocks, block.taskId = row.taskId)) ∧
    store' = { store with allocations := store'.allocations } := by
  unfold allocations at h
  rw [raiseIf_bind_ok, bind_ok] at h
  obtain ⟨hfree, table, htable, h⟩ := h
  rw [pure_eq_ok, Except.ok.injEq] at h
  subst h
  refine ⟨fun row hrow howner hblock => ?_, fun row => ?_, rfl⟩
  · by_contra hne
    exact hfree ⟨row, hrow, howner, mem_allocatedIds.mpr hblock, hne⟩
  · rw [Table.mem_insertAll? (insertRows_ok.mp htable), Table.mem_delete, List.mem_map]
    refine or_congr ?_ ?_
    · rw [Bool.and_eq_false_iff, decide_eq_false_iff_not, decide_eq_false_iff_not,
        ← not_and_or]
    · constructor
      · rintro ⟨taskId, hid, rfl⟩
        exact ⟨rfl, rfl, mem_allocatedIds.mp hid⟩
      · rintro ⟨howner, hschedule, hblock⟩
        exact ⟨row.taskId, mem_allocatedIds.mpr hblock, by rw [← howner, ← hschedule]⟩

theorem allocations_total {store : Store} {owner scheduleId : UUID} {state : Candidate}
    (free : ∀ row ∈ store.allocations, row.userId = owner →
      (∃ block ∈ state.content.blocks, block.taskId = row.taskId) →
      row.scheduleId = scheduleId) :
    ∃ store', allocations store owner scheduleId state = .ok store' := by
  obtain ⟨table, htable⟩ := Table.insertAll?_isSome
    (store.allocations.delete fun row =>
      decide (row.userId = owner) && decide (row.scheduleId = scheduleId))
    ((allocatedIds state).map fun taskId => ⟨owner, taskId, scheduleId⟩)
    (by
      rw [List.map_map]
      exact (allocatedIds_nodup state).map fun a b hab => by simpa using hab)
    (by
      intro row hrow other hother heq
      obtain ⟨taskId, hid, rfl⟩ := List.mem_map.mp hrow
      obtain ⟨hmem, hkept⟩ := Table.mem_delete.mp hother
      rw [Prod.mk.injEq] at heq
      have hsame := free other hmem heq.1 (heq.2 ▸ mem_allocatedIds.mp hid)
      simp [heq.1, hsame] at hkept)
  refine ⟨{ store with allocations := table }, ?_⟩
  unfold allocations
  rw [raiseIf_bind_ok]
  refine ⟨?_, ?_⟩
  · rintro ⟨row, hrow, howner, hid, hne⟩
    exact hne (free row hrow howner (mem_allocatedIds.mp hid))
  · simp only
    rw [insertRows_ok.mpr htable]
    rfl

theorem insertState_ok {store store' : Store} {owner scheduleId : UUID} {revision : Nat}
    {state : SavedState} {stamp : Int}
    (h : insertState store owner scheduleId revision state stamp = .ok store') :
    store'.versions.rows = store.versions.rows ++ [⟨scheduleId, owner, revision, state, stamp⟩] ∧
    (∀ row ∈ store.versions, ¬ (row.scheduleId = scheduleId ∧ row.revision = revision)) ∧
    store' = { store with versions := store'.versions } := by
  unfold insertState at h
  rw [bind_ok] at h
  obtain ⟨table, htable, h⟩ := h
  rw [pure_eq_ok, Except.ok.injEq] at h
  subst h
  obtain ⟨hfree, hrows⟩ := Table.insert?_eq_some (insertRow_ok.mp htable)
  refine ⟨hrows, fun row hrow hsame => hfree row hrow ?_, rfl⟩
  rw [hsame.1, hsame.2]

theorem insertState_total {store : Store} {owner scheduleId : UUID} {revision : Nat}
    {state : SavedState} {stamp : Int}
    (free : ∀ row ∈ store.versions, ¬ (row.scheduleId = scheduleId ∧ row.revision = revision)) :
    ∃ store', insertState store owner scheduleId revision state stamp = .ok store' := by
  obtain ⟨table, htable⟩ := Table.insert?_isSome store.versions
    ⟨scheduleId, owner, revision, state, stamp⟩
    (fun other ho heq => free other ho (by simpa using heq))
  refine ⟨{ store with versions := table }, ?_⟩
  unfold insertState
  rw [insertRow_ok.mpr htable]
  rfl

theorem finish_ok {store store' : Store} {owner scheduleId requestId : UUID}
    {digest : CommandDigest} {version : Nat} {result : ScheduleResult}
    (h : finish store owner scheduleId requestId digest version = .ok (result, store')) :
    store'.commands.rows =
      store.commands.rows ++ [⟨owner, requestId, scheduleId, digest, version⟩] ∧
    store' = { store with commands := store'.commands } ∧
    view store' owner scheduleId = .ok result.schedule ∧
    result.replayed = false ∧ result.appliedVersion = version := by
  unfold finish at h
  simp only [bind_ok, pure_eq_ok, Except.ok.injEq, Prod.mk.injEq] at h
  obtain ⟨table, htable, schedule, hview, rfl, rfl⟩ := h
  exact ⟨(Table.insert?_eq_some (insertRow_ok.mp htable)).2, rfl, hview, rfl, rfl⟩

theorem finish_total {store : Store} {owner scheduleId requestId : UUID}
    {found : ScheduleHeader} (digest : CommandDigest) (version : Nat)
    (fresh : store.commands.find? (owner, requestId) = none)
    (present : header store owner scheduleId = .ok found) :
    ∃ result store', finish store owner scheduleId requestId digest version =
      .ok (result, store') := by
  obtain ⟨table, htable⟩ := Table.insert?_isSome store.commands
    ⟨owner, requestId, scheduleId, digest, version⟩
    (Table.find?_eq_none.mp fresh)
  have hpresent : header { store with commands := table } owner scheduleId = .ok found := present
  unfold finish view
  rw [insertRow_ok.mpr htable, ok_bind]
  simp only
  rw [hpresent]
  exact ⟨_, _, rfl⟩

theorem replay_none {store : Store} {owner requestId : UUID} {digest : CommandDigest} :
    replay store owner requestId digest = .ok none ↔
      store.commands.find? (owner, requestId) = none := by
  unfold replay
  split
  · next h => simp [h]
  · next receipt h =>
      rw [raiseIf_bind_ok, h]
      simp [bind_ok]

theorem replay_some {store : Store} {owner requestId : UUID} {digest : CommandDigest}
    {result : ScheduleResult}
    (h : replay store owner requestId digest = .ok (some result)) : result.replayed = true := by
  unfold replay at h
  split at h
  · simp at h
  · rw [raiseIf_bind_ok, bind_ok] at h
    obtain ⟨-, schedule, -, h⟩ := h
    simp only [pure_eq_ok, Except.ok.injEq, Option.some.injEq] at h
    rw [← h]

theorem nextVersion_ok {found : ScheduleHeader} {expected version : Nat} :
    nextVersion found expected = .ok version ↔
      found.schedule.version = expected ∧ expected < versionLimit ∧ version = expected + 1 := by
  unfold nextVersion
  rw [raiseIf_bind_ok, raiseIf_bind_ok, not_not, not_le]
  simp [eq_comm]

theorem ownerLock_ok {store : Store} {owner : UUID} {zone : String} :
    ownerLock store owner = .ok zone ↔
      ∃ user ∈ store.users, user.id = owner ∧ user.timezone = zone := by
  rw [Table.exists_key_iff]
  unfold ownerLock
  cases store.users.find? owner with
  | none => simp
  | some user => simp

/-- The row of a schedule after `moveCursor`. -/
def ScheduleRow.moved (schedule : ScheduleRow) (version revision : Nat) (stamp : Int) :
    ScheduleRow :=
  { schedule with
    version, currentRevision := revision, updatedAt := greatest stamp schedule.updatedAt }

theorem mem_moveCursor {store : Store} {schedule : ScheduleRow}
    (present : schedule ∈ store.schedules) {version revision : Nat} {stamp : Int}
    (row : ScheduleRow) :
    row ∈ (moveCursor store schedule.userId schedule.id version revision stamp).schedules ↔
      (row ∈ store.schedules ∧ row.id ≠ schedule.id) ∨
      row = schedule.moved version revision stamp := by
  unfold moveCursor
  simp only [Table.mem_update, Bool.and_eq_true, decide_eq_true_eq]
  constructor
  · rintro ⟨old, hold, rfl⟩
    by_cases hid : old.id = schedule.id
    · have hsame := store.schedules.eq_of_key hold present hid
      subst hsame
      right
      simp [ScheduleRow.moved]
    · left
      simp [hid, hold]
  · rintro (⟨hrow, hid⟩ | rfl)
    · exact ⟨row, hrow, by simp [hid]⟩
    · exact ⟨schedule, present, by simp [ScheduleRow.moved]⟩

end SmartPlanner
