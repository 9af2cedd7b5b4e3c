import SmartPlanner.OwnerSchedules
import SmartPlanner.RecurrenceRows
import SmartPlanner.TaskRows

/-!
What a command executed for one owner leaves alone: every row of every other
owner. The statements that address versions by the id of a schedule reach no
other owner's row, because the versions of a schedule belong to its owner.
-/

namespace SmartPlanner

open Outcome Sorting Tables

section
variable {store store' : Store} {command : Command} {other : UUID}
  (apart : command.owner ≠ other)
include apart

theorem TaskChange.others (change : TaskChange store store' command) :
    store.tasks.SameOn (fun row => row.userId = other) store'.tasks := by
  have edited : ∀ {owner taskId : UUID} {expectedVersion : Nat} {f : TaskRow → TaskRow}
      {keeps : ∀ row, (f row).id = row.id},
      store'.tasks = store.tasks.update (TaskRow.guarded owner taskId expectedVersion) f keeps →
      owner ≠ other → (∀ row, (f row).userId = row.userId) →
      store.tasks.SameOn (fun row => row.userId = other) store'.tasks := by
    intro owner taskId expectedVersion f keeps h hne huser
    rw [h]
    refine .update_other _ keeps fun row _ hguard => ?_
    rw [huser, (Repository.guarded_iff.mp hguard).2.1]
    exact ⟨hne, hne⟩
  cases change with
  | same h => exact h ▸ .refl _
  | created inserted own =>
      intro row howner
      rw [inserted.mem]
      refine ⟨Or.inl, fun h => h.resolve_right ?_⟩
      rintro rfl
      exact apart (own.symm.trans howner)
  | updated title h => exact edited h apart fun _ => rfl
  | deleted h => exact edited h apart fun _ => rfl
  | generated inserted generated =>
      intro row howner
      rw [inserted.mem]
      refine ⟨Or.inl, fun h => h.resolve_right fun hrow => ?_⟩
      exact apart ((generated row hrow).1.symm.trans howner)

theorem RecurrenceChange.others (change : RecurrenceChange store store' command) :
    store.recurrences.SameOn (fun row => row.userId = other) store'.recurrences := by
  cases change with
  | same h => exact h ▸ .refl _
  | created inserted own =>
      intro row howner
      rw [inserted.mem]
      refine ⟨Or.inl, fun h => h.resolve_right ?_⟩
      rintro rfl
      exact apart (own.symm.trans howner)
  | edited keeps h own follows =>
      rw [h]
      refine .update_other _ keeps fun row hrow hp => ?_
      rw [(follows row hrow hp).userId, own row hp]
      exact ⟨apart, apart⟩

end

/-- Inserting a row of another owner. -/
theorem insertRow_others {κ α : Type} [DecidableEq κ] {key : α → κ} {own : α → Prop}
    {table table' : Table key} {row : α} (h : insertRow table row = .ok table')
    (others : ¬ own row) : table.SameOn own table' :=
  .insert?_other (insertRow_ok.mp h) others

section
variable {store store' : Store} {owner other : UUID} (apart : owner ≠ other)
include apart

namespace Repository

theorem register_others {email timezone : String} {stamp : Int} {user : UserRow}
    (h : register store owner email timezone stamp = .ok (user, store')) :
    Agree other store store' := by
  unfold register at h
  rw [raiseIf_bind_ok] at h
  simp only [bind_ok, pure_eq_ok, Except.ok.injEq, Prod.mk.injEq] at h
  obtain ⟨-, users, husers, preferences, hpreferences, -, rfl⟩ := h
  exact { Agree.refl other store with
    users := insertRow_others husers apart
    preferences := insertRow_others hpreferences apart }

theorem updatePreferences_others {update : PreferencePut} {stamp : Int}
    {answer : PreferenceRecord}
    (h : updatePreferences store owner update stamp = .ok (answer, store')) :
    Agree other store store' := by
  unfold updatePreferences at h
  simp only at h
  split at h
  · contradiction
  · simp only [bind_ok, pure_eq_ok, Except.ok.injEq, Prod.mk.injEq] at h
    obtain ⟨result, -, -, rfl⟩ := h
    refine { Agree.refl other store with preferences := ?_ }
    refine .update_other _ (by exact fun _ => rfl) fun row _ hp => ?_
    simp only [Bool.and_eq_true, decide_eq_true_eq] at hp
    exact ⟨hp.1 ▸ apart, hp.1 ▸ apart⟩

end Repository

namespace FixedEventRepository

theorem create_others {id : UUID} {data : FixedEventCreate} {stamp : Int} {answer : FixedEventRow}
    (h : create store owner data id stamp = .ok (answer, store')) : Agree other store store' := by
  obtain ⟨-, rfl, -, events, hevents, rfl⟩ := create_ok h
  exact { Agree.refl other store with events := insertRow_others hevents apart }

theorem replace_others {eventId : UUID} {data : FixedEventReplace} {stamp : Int}
    {answer : FixedEventRow}
    (h : replace store owner eventId data stamp = .ok (answer, store')) :
    Agree other store store' := by
  obtain ⟨-, rfl⟩ := replace_ok h
  refine { Agree.refl other store with events := ?_ }
  refine .update_other _ (by exact fun _ => rfl) fun row _ hp => ?_
  simp only [Bool.and_eq_true, decide_eq_true_eq] at hp
  exact ⟨hp.1.1 ▸ apart, hp.1.1 ▸ apart⟩

theorem delete_others {eventId : UUID} {expectedVersion : Nat}
    (h : delete store owner eventId expectedVersion = .ok store') : Agree other store store' := by
  unfold delete at h
  simp only at h
  split at h
  · rw [Except.ok.injEq] at h
    rw [← h]
    refine { Agree.refl other store with events := .delete_other _ fun row _ hp => ?_ }
    simp only [Bool.and_eq_true, decide_eq_true_eq] at hp
    exact hp.1.1 ▸ apart
  · rw [bind_ok] at h
    obtain ⟨-, -, h⟩ := h
    contradiction

end FixedEventRepository

end

/-- What the statements on a schedule of an owner change. -/
structure Confined (owner scheduleId : UUID) (store store' : Store) : Prop where
  others : ∀ other, owner ≠ other → Agree other store store'
  versions : ∀ row ∈ store'.versions, row ∈ store.versions ∨
    (row.scheduleId = scheduleId ∧ row.userId = owner)
  schedules : ∀ row ∈ store.schedules, ∃ row' ∈ store'.schedules,
    row'.id = row.id ∧ row'.userId = row.userId

/-- The versions of a schedule are its owner's. -/
def HistoryOwned (owner scheduleId : UUID) (store : Store) : Prop :=
  ∀ row ∈ store.versions, row.scheduleId = scheduleId → row.userId = owner

theorem VersionsOwned.history {store : Store} (owned : VersionsOwned store)
    {schedule : ScheduleRow} (present : schedule ∈ store.schedules) :
    HistoryOwned schedule.userId schedule.id store := by
  intro row hrow hid
  obtain ⟨other, hother, hsame, huser⟩ := owned row hrow
  rw [← huser, store.schedules.eq_of_key hother present (hsame.trans hid)]

namespace Confined
variable {owner scheduleId : UUID} {store middle store' : Store}

theorem trans (first : Confined owner scheduleId store middle)
    (second : Confined owner scheduleId middle store') :
    Confined owner scheduleId store store' := by
  refine ⟨fun other apart => (first.others other apart).trans (second.others other apart),
    fun row hrow => ?_, fun row hrow => ?_⟩
  · rcases second.versions row hrow with hmiddle | hown
    · exact first.versions row hmiddle
    · exact Or.inr hown
  · obtain ⟨a, ha, hid, huser⟩ := first.schedules row hrow
    obtain ⟨b, hb, hid', huser'⟩ := second.schedules a ha
    exact ⟨b, hb, hid'.trans hid, huser'.trans huser⟩

theorem historyOwned (confined : Confined owner scheduleId store store')
    (owned : HistoryOwned owner scheduleId store) : HistoryOwned owner scheduleId store' := by
  intro row hrow hid
  rcases confined.versions row hrow with hold | ⟨-, hown⟩
  · exact owned row hold hid
  · exact hown

end Confined

/-- A command of an owner and the rows of the others. -/
structure Contained (owner : UUID) (store store' : Store) : Prop where
  others : ∀ other, owner ≠ other → Agree other store store'
  owned : VersionsOwned store'

theorem Confined.contained {owner : UUID} {store store' : Store} {schedule : ScheduleRow}
    (confined : Confined owner schedule.id store store') (owned : VersionsOwned store)
    (present : schedule ∈ store.schedules) (howner : schedule.userId = owner) :
    Contained owner store store' := by
  refine ⟨confined.others, fun row hrow => ?_⟩
  have kept : ∀ old ∈ store.schedules, old.id = row.scheduleId → old.userId = row.userId →
      ∃ schedule ∈ store'.schedules, schedule.id = row.scheduleId ∧
        schedule.userId = row.userId := by
    intro old hold hid huser
    obtain ⟨next, hnext, hid', huser'⟩ := confined.schedules old hold
    exact ⟨next, hnext, hid'.trans hid, huser'.trans huser⟩
  rcases confined.versions row hrow with hold | ⟨hid, huser⟩
  · obtain ⟨old, hmem, hid, huser⟩ := owned row hold
    exact kept old hmem hid huser
  · exact kept schedule present hid.symm (howner.trans huser.symm)

namespace ScheduleRepository
variable {zoneInfo : String → Zone} {store store' : Store} {owner scheduleId : UUID}

theorem allocations_confined {state : Candidate}
    (h : allocations store owner scheduleId state = .ok store') :
    Confined owner scheduleId store store' := by
  obtain ⟨-, hrows, hothers⟩ := allocations_ok h
  refine ⟨fun other apart => ?_, fun row hrow => ?_, fun row hrow => ⟨row, ?_, rfl, rfl⟩⟩
  · rw [hothers]
    refine { Agree.refl other store with allocations := fun row howner => ?_ }
    rw [hrows, howner]
    have foreign : other ≠ owner := Ne.symm apart
    simp only [foreign, false_and, not_false_eq_true, and_true, or_false]
  · rw [hothers] at hrow
    exact Or.inl hrow
  · rw [hothers]
    exact hrow

theorem insertState_confined {revision : Nat} {state : SavedState} {stamp : Int}
    (h : insertState store owner scheduleId revision state stamp = .ok store') :
    Confined owner scheduleId store store' := by
  unfold insertState at h
  simp only [bind_ok, pure_eq_ok, Except.ok.injEq] at h
  obtain ⟨versions, hinsert, rfl⟩ := h
  refine ⟨fun other apart => ?_, fun row hrow => ?_, fun row hrow => ⟨row, hrow, rfl, rfl⟩⟩
  · exact { Agree.refl other store with versions := insertRow_others hinsert apart }
  · refine ((Table.mem_insert? (insertRow_ok.mp hinsert) row).mp hrow).imp_right ?_
    rintro rfl
    exact ⟨rfl, rfl⟩

/-- Of a deletion by schedule id, the owner of the schedule is the only one to
notice. -/
theorem deleteVersions_confined (owned : HistoryOwned owner scheduleId store)
    (q : VersionRow → Bool) :
    Confined owner scheduleId store (deleteVersions store scheduleId q) := by
  refine ⟨fun other apart => ?_, fun row hrow => Or.inl (Table.mem_delete.mp hrow).1,
    fun row hrow => ⟨row, hrow, rfl, rfl⟩⟩
  refine { Agree.refl other store with versions := .delete_other _ fun row hrow hp => ?_ }
  simp only [Bool.and_eq_true, decide_eq_true_eq] at hp
  exact owned row hrow hp.1 ▸ apart

theorem moveCursor_confined (version revision : Nat) (stamp : Int) :
    Confined owner scheduleId store (moveCursor store owner scheduleId version revision stamp) := by
  refine ⟨fun other apart => ?_, fun row hrow => Or.inl hrow, fun row hrow => ?_⟩
  · refine { Agree.refl other store with schedules := ?_ }
    refine .update_other _ (by exact fun _ => rfl) fun row _ hp => ?_
    simp only [Bool.and_eq_true, decide_eq_true_eq] at hp
    exact ⟨hp.2 ▸ apart, hp.2 ▸ apart⟩
  · have evolves : store.schedules.Evolves (fun old moved => moved.userId = old.userId)
        (moveCursor store owner scheduleId version revision stamp).schedules :=
      .update (by exact fun _ => rfl) fun _ _ _ => rfl
    obtain ⟨moved, hmoved, hid, rfl | huser⟩ := evolves row hrow
    · exact ⟨moved, hmoved, rfl, rfl⟩
    · exact ⟨moved, hmoved, hid, huser⟩

theorem finish_confined {requestId : UUID} {digest : CommandDigest} {version : Nat}
    {result : ScheduleResult}
    (h : finish store owner scheduleId requestId digest version = .ok (result, store')) :
    Confined owner scheduleId store store' := by
  unfold finish at h
  simp only [bind_ok, pure_eq_ok, Except.ok.injEq, Prod.mk.injEq] at h
  obtain ⟨commands, hinsert, -, -, -, rfl⟩ := h
  refine ⟨fun other apart => ?_, fun row hrow => Or.inl hrow,
    fun row hrow => ⟨row, hrow, rfl, rfl⟩⟩
  exact { Agree.refl other store with commands := insertRow_others hinsert apart }

section
variable {now stamp : Int} {result : ScheduleResult} (owned : VersionsOwned store)
include owned

theorem create_contained {data : ScheduleCreate}
    (h : create zoneInfo store owner data scheduleId now stamp = .ok (result, store')) :
    Contained owner store store' := by
  unfold create at h
  simp only [bind_ok] at h
  obtain ⟨zone, -, answer, -, h⟩ := h
  cases answer with
  | some answer =>
      simp only [pure_eq_ok, Except.ok.injEq, Prod.mk.injEq] at h
      obtain ⟨-, rfl⟩ := h
      exact ⟨fun other _ => .refl other store, owned⟩
  | none =>
      simp only [bind_ok] at h
      obtain ⟨valid, -, -, -, schedules, hschedules, inserted, hinsert, allocated, halloc,
        hfinish⟩ := h
      have present := fun row => Table.mem_insert? (insertRow_ok.mp hschedules) row
      have opened : VersionsOwned { store with schedules } := by
        intro row hrow
        obtain ⟨schedule, hschedule, hsame⟩ := owned row hrow
        exact ⟨schedule, (present schedule).mpr (Or.inl hschedule), hsame⟩
      have confined := (insertState_confined hinsert).trans
        ((allocations_confined halloc).trans (finish_confined hfinish))
      have contained := confined.contained opened ((present _).mpr (Or.inr rfl)) rfl
      refine ⟨fun other apart => .trans ?_ (contained.others other apart), contained.owned⟩
      exact { Agree.refl other store with schedules := insertRow_others hschedules apart }

theorem replace_contained {data : ScheduleReplace}
    (h : replace zoneInfo store owner scheduleId data now stamp = .ok (result, store')) :
    Contained owner store store' := by
  unfold replace at h
  simp only [bind_ok] at h
  obtain ⟨zone, -, found, hheader, answer, -, h⟩ := h
  cases answer with
  | some answer =>
      simp only [pure_eq_ok, Except.ok.injEq, Prod.mk.injEq] at h
      obtain ⟨-, rfl⟩ := h
      exact ⟨fun other _ => .refl other store, owned⟩
  | none =>
      simp only [bind_ok] at h
      obtain ⟨version, -, valid, -, allocated, halloc, inserted, hinsert, hfinish⟩ := h
      obtain ⟨-, present, rfl, rfl, -⟩ := header_ok.mp hheader
      have history := owned.history present
      have cleared := allocations_confined halloc
      have appended := cleared.trans
        ((deleteVersions_confined (cleared.historyOwned history) _).trans
          (insertState_confined hinsert))
      have moved := appended.trans (moveCursor_confined version version stamp)
      have finished := moved.trans
        ((deleteVersions_confined (moved.historyOwned history) _).trans (finish_confined hfinish))
      exact finished.contained owned present rfl

theorem travel_contained {data : HistoryCommand} {direction : Direction}
    (h : travel zoneInfo store owner scheduleId data direction now stamp =
      .ok (result, store')) :
    Contained owner store store' := by
  unfold travel at h
  simp only [bind_ok] at h
  obtain ⟨zone, -, found, hheader, answer, -, h⟩ := h
  cases answer with
  | some answer =>
      simp only [pure_eq_ok, Except.ok.injEq, Prod.mk.injEq] at h
      obtain ⟨-, rfl⟩ := h
      exact ⟨fun other _ => .refl other store, owned⟩
  | none =>
      simp only [bind_ok] at h
      obtain ⟨version, -, h⟩ := h
      split at h
      · contradiction
      · simp only [bind_ok] at h
        obtain ⟨valid, -, allocated, halloc, hfinish⟩ := h
        obtain ⟨-, present, rfl, rfl, -⟩ := header_ok.mp hheader
        have confined := (allocations_confined halloc).trans
          ((moveCursor_confined version _ stamp).trans (finish_confined hfinish))
        exact confined.contained owned present rfl

end

end ScheduleRepository

variable {zoneInfo : String → Zone}

/-- No command executed for an owner changes a row of a different owner. -/
theorem perform_contained {store store' : Store} {command : Command} (owned : VersionsOwned store)
    (h : perform zoneInfo store command = .ok store') : Contained command.owner store store' := by
  have writes := perform_writes h
  have tasks := fun {other : UUID} (apart : command.owner ≠ other) =>
    (perform_taskChange h).others apart
  have recurrences := fun {other : UUID} (apart : command.owner ≠ other) =>
    (perform_recurrenceChange h).others apart
  cases harea : command.area with
  | tasks =>
      rw [harea] at writes
      obtain ⟨written, rfl⟩ := writes
      exact ⟨fun other apart => { Agree.refl other store with tasks := tasks apart }, owned⟩
  | recurrences =>
      rw [harea] at writes
      obtain ⟨written, rfl⟩ := writes
      exact ⟨fun other apart => { Agree.refl other store with recurrences := recurrences apart },
        owned⟩
  | accounts =>
      rw [harea] at writes
      obtain ⟨users, preferences, rfl⟩ := writes
      cases command with
      | register =>
          obtain ⟨answer, h⟩ := snd_map_ok h
          exact ⟨fun other apart => Repository.register_others apart h, owned⟩
      | _ => cases harea
  | preferences =>
      rw [harea] at writes
      obtain ⟨preferences, rfl⟩ := writes
      cases command with
      | updatePreferences =>
          obtain ⟨answer, h⟩ := snd_map_ok h
          exact ⟨fun other apart => Repository.updatePreferences_others apart h, owned⟩
      | _ => cases harea
  | events =>
      rw [harea] at writes
      obtain ⟨events, rfl⟩ := writes
      cases command with
      | createEvent =>
          obtain ⟨answer, h⟩ := snd_map_ok h
          exact ⟨fun other apart => FixedEventRepository.create_others apart h, owned⟩
      | replaceEvent =>
          obtain ⟨answer, h⟩ := snd_map_ok h
          exact ⟨fun other apart => FixedEventRepository.replace_others apart h, owned⟩
      | deleteEvent =>
          exact ⟨fun other apart => FixedEventRepository.delete_others apart h, owned⟩
      | _ => cases harea
  | schedules =>
      cases command with
      | createSchedule =>
          obtain ⟨answer, h⟩ := snd_map_ok h
          exact ScheduleRepository.create_contained owned h
      | replaceSchedule =>
          obtain ⟨answer, h⟩ := snd_map_ok h
          exact ScheduleRepository.replace_contained owned h
      | travelSchedule =>
          obtain ⟨answer, h⟩ := snd_map_ok h
          exact ScheduleRepository.travel_contained owned h
      | _ => cases harea

theorem step_contained {store : Store} (owned : VersionsOwned store) (command : Command) :
    Contained command.owner store (step zoneInfo store command) := by
  unfold step
  split
  · next h => exact perform_contained owned h
  · exact ⟨fun other _ => .refl other store, owned⟩

end SmartPlanner
