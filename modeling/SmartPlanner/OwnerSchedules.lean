import SmartPlanner.OwnerView
import SmartPlanner.ScheduleTables

/-!
The schedule repository on stores with the same rows of an owner. Several of its
statements address the versions by the id of the schedule alone; what they see
is the owner's because a schedule was found under both ids before, or inserted
under a free id.
-/

namespace SmartPlanner

open Outcome Sorting Tables ScheduleRepository

/-- The foreign key of `schedule_versions`: the id and the owner of a schedule. -/
def VersionsOwned (store : Store) : Prop :=
  ∀ row ∈ store.versions, ∃ schedule ∈ store.schedules,
    schedule.id = row.scheduleId ∧ schedule.userId = row.userId

/-- Two stores with the same rows of an owner and the same versions of one
schedule. -/
structure AgreeOn (owner scheduleId : UUID) (s t : Store) : Prop extends Agree owner s t where
  histories : s.versions.SameOn
    (fun row => row.userId = owner ∨ row.scheduleId = scheduleId) t.versions

theorem protectPlacements_congr {live live' : List TaskRow}
    (h : ∀ taskId, liveRow live taskId = liveRow live' taskId) (previous candidate : List PlanBlock)
    (now : Int) :
    protectPlacements previous candidate live now =
      protectPlacements previous candidate live' now := by
  have body : protectBlock candidate live now = protectBlock candidate live' now := by
    funext block
    unfold protectBlock
    rw [h]
  unfold protectPlacements
  rw [body]

theorem header_absent {store : Store} {owner scheduleId : UUID}
    (absent : (store.schedules.rows.find? fun row =>
      row.id = scheduleId && row.userId = owner) = none) :
    header store owner scheduleId = .error (.app .notFound) := by
  unfold header
  rw [absent]

namespace AgreeOn
variable {owner scheduleId : UUID} {s t : Store} (agree : AgreeOn owner scheduleId s t)
include agree

theorem historyRows :
    ScheduleRepository.historyRows s scheduleId = ScheduleRepository.historyRows t scheduleId := by
  unfold ScheduleRepository.historyRows
  refine sortBy_select_eq agree.histories (fun row hp => Or.inr (of_decide_eq_true hp)) ?_
  intro x y hx hy heq
  rw [of_decide_eq_true hx, of_decide_eq_true hy, heq]

theorem version (revision : Nat) :
    s.versions.find? (scheduleId, revision) = t.versions.find? (scheduleId, revision) :=
  agree.histories.find? fun _ hkey => Or.inr (congrArg Prod.fst hkey)

theorem anyVersion (q : VersionRow → Bool) :
    (s.versions.rows.any fun row => row.scheduleId = scheduleId && q row) =
      t.versions.rows.any fun row => row.scheduleId = scheduleId && q row :=
  agree.histories.any_eq fun row hp => by
    rw [Bool.and_eq_true, decide_eq_true_eq] at hp
    exact Or.inr hp.1

end AgreeOn

namespace Agree
variable {owner : UUID} {s t : Store} (agree : Agree owner s t)
include agree

theorem ownerLock :
    ScheduleRepository.ownerLock s owner = ScheduleRepository.ownerLock t owner := by
  unfold ScheduleRepository.ownerLock
  rw [agree.user]

theorem liveRow {p : TaskRow → Bool} (owned : ∀ row, p row = true → row.userId = owner)
    (taskId : UUID) :
    SmartPlanner.liveRow (s.tasks.select p) taskId =
      SmartPlanner.liveRow (t.tasks.select p) taskId := by
  refine Option.ext fun row => ?_
  rw [liveRow_select, liveRow_select]
  constructor
  · rintro ⟨hrow, hp, hid⟩
    exact ⟨(agree.tasks row (owned row hp)).mp hrow, hp, hid⟩
  · rintro ⟨hrow, hp, hid⟩
    exact ⟨(agree.tasks row (owned row hp)).mpr hrow, hp, hid⟩

theorem scheduleRow (scheduleId : UUID) :
    (s.schedules.rows.find? fun row => row.id = scheduleId && row.userId = owner) =
      t.schedules.rows.find? fun row => row.id = scheduleId && row.userId = owner :=
  agree.schedules.rows_find?_key scheduleId fun row hp => by
    simp only [Bool.and_eq_true, decide_eq_true_eq] at hp
    exact hp.symm

/-- The versions of a schedule of the owner are the owner's. -/
theorem on (ownedS : VersionsOwned s) (ownedT : VersionsOwned t) {schedule : ScheduleRow}
    (present : schedule ∈ s.schedules) (howner : schedule.userId = owner) :
    AgreeOn owner schedule.id s t := by
  have own : ∀ {store : Store}, VersionsOwned store → schedule ∈ store.schedules →
      ∀ row ∈ store.versions, row.scheduleId = schedule.id → row.userId = owner := by
    intro store owned hmem row hrow hschedule
    obtain ⟨other, hother, hsame, huser⟩ := owned row hrow
    have heq := store.schedules.eq_of_key hother hmem (hsame.trans hschedule)
    rw [← huser, heq, howner]
  have presentT := (agree.schedules schedule howner).mp present
  refine ⟨agree, fun row hrow => ?_⟩
  rcases hrow with huser | hschedule
  · exact agree.versions row huser
  · constructor
    · exact fun h => (agree.versions row (own ownedS present row h hschedule)).mp h
    · exact fun h => (agree.versions row (own ownedT presentT row h hschedule)).mpr h

/-- Where an owner addresses a schedule, it is not found in either store, or the
stores agree on its versions too. -/
theorem addressed (ownedS : VersionsOwned s) (ownedT : VersionsOwned t) (scheduleId : UUID) :
    AgreeOn owner scheduleId s t ∨
      (s.schedules.rows.find? fun row => row.id = scheduleId && row.userId = owner) = none := by
  cases hfind : s.schedules.rows.find? fun row => row.id = scheduleId && row.userId = owner with
  | none => exact Or.inr rfl
  | some schedule =>
      have hguard := List.find?_some hfind
      simp only [Bool.and_eq_true, decide_eq_true_eq] at hguard
      obtain ⟨rfl, howner⟩ := hguard
      exact Or.inl (agree.on ownedS ownedT (List.mem_of_find?_eq_some hfind) howner)

theorem sourceStatus (state : SavedState) :
    ScheduleRepository.sourceStatus s owner state =
      ScheduleRepository.sourceStatus t owner state := by
  have live : ∀ (ids : List UUID) (c : Prop) [Decidable c] (taskId : UUID),
      SmartPlanner.liveRow
          (if c then s.tasks.select fun row => row.userId = owner && row.id ∈ ids else []) taskId =
        SmartPlanner.liveRow
          (if c then t.tasks.select fun row => row.userId = owner && row.id ∈ ids else [])
          taskId := by
    intro ids c _ taskId
    by_cases hc : c
    · rw [if_pos hc, if_pos hc]
      refine agree.liveRow (fun row hp => ?_) taskId
      rw [Bool.and_eq_true, decide_eq_true_eq] at hp
      exact hp.1
    · rw [if_neg hc, if_neg hc]
  unfold ScheduleRepository.sourceStatus
  rw [agree.preferences.find? fun _ h => h]
  simp only [live]

theorem sources (candidate : Candidate) (previous : Option Candidate) :
    Related (fun a b => a.1 = b.1 ∧ a.2.1 = b.2.1 ∧
        ∀ taskId, SmartPlanner.liveRow a.2.2 taskId = SmartPlanner.liveRow b.2.2 taskId)
      (ScheduleRepository.sources s owner candidate previous)
      (ScheduleRepository.sources t owner candidate previous) := by
  have live : ∀ taskId, SmartPlanner.liveRow (liveRows s owner candidate previous) taskId =
      SmartPlanner.liveRow (liveRows t owner candidate previous) taskId := by
    refine agree.liveRow fun row hp => ?_
    rw [Bool.and_eq_true, decide_eq_true_eq] at hp
    exact hp.1
  have selected : selectedTask (liveRows s owner candidate previous) =
      selectedTask (liveRows t owner candidate previous) := by
    funext taskId
    unfold selectedTask
    rw [live]
  unfold ScheduleRepository.sources
  simp only
  rw [agree.preferences.find? fun _ h => h, selected]
  simp only [live]
  split
  · exact .error _
  · exact .bind_left fun _ _ => .bind_left fun _ _ => .bind_left fun _ _ => .bind_left fun _ _ =>
      .ok ⟨rfl, rfl, live⟩

theorem validate (zoneInfo : String → Zone) (candidate : Candidate) (zone : String)
    (previous : Option Candidate) (now : Int) :
    ScheduleRepository.validate zoneInfo s owner candidate zone previous now =
      ScheduleRepository.validate zoneInfo t owner candidate zone previous now := by
  unfold ScheduleRepository.validate
  refine Related.eq ((agree.sources candidate previous).bind fun a b _ _ same => ?_)
  obtain ⟨tasks, preferences, live⟩ := a
  obtain ⟨tasks', preferences', live'⟩ := b
  obtain ⟨rfl, rfl, hlive⟩ := same
  simp only at hlive
  refine .bind_left fun _ _ => .bind_left fun _ _ => ?_
  rw [protectPlacements_congr hlive]
  exact .bind_left fun _ _ => .bind_left fun _ _ => .bind_left fun _ _ => .ok rfl

end Agree

namespace AgreeOn
variable {owner scheduleId : UUID} {s t : Store} (agree : AgreeOn owner scheduleId s t)
include agree

theorem header : ScheduleRepository.header s owner scheduleId =
    ScheduleRepository.header t owner scheduleId := by
  unfold ScheduleRepository.header
  rw [agree.scheduleRow scheduleId]
  split
  · rfl
  · rw [agree.version]
    simp only [agree.anyVersion]

theorem view : ScheduleRepository.view s owner scheduleId =
    ScheduleRepository.view t owner scheduleId := by
  unfold ScheduleRepository.view
  rw [agree.header]
  refine Related.eq (.bind_left fun row _ => .ok ?_)
  rw [agree.sourceStatus]

theorem keptRevisions : ScheduleRepository.keptRevisions s scheduleId =
    ScheduleRepository.keptRevisions t scheduleId := by
  unfold ScheduleRepository.keptRevisions
  rw [agree.historyRows]

theorem target (revision : Nat) (direction : Direction) :
    ScheduleRepository.target s scheduleId revision direction =
      ScheduleRepository.target t scheduleId revision direction := by
  unfold ScheduleRepository.target
  rw [agree.historyRows]

theorem allocate (state : Candidate) :
    Related (AgreeOn owner scheduleId) (ScheduleRepository.allocations s owner scheduleId state)
      (ScheduleRepository.allocations t owner scheduleId state) := by
  unfold ScheduleRepository.allocations
  refine .guard (agree.allocations.exists_iff fun row h => h.1) fun _ => ?_
  refine (insertRows_related agree.allocations.delete ?_).bind fun a b _ _ same =>
    .ok ⟨{ agree.toAgree with allocations := same }, agree.histories⟩
  intro row hrow other hkey
  obtain ⟨taskId, -, rfl⟩ := List.mem_map.mp hrow
  exact congrArg Prod.fst hkey

theorem insertState (revision : Nat) (state : SavedState) (stamp : Int) :
    Related (AgreeOn owner scheduleId)
      (ScheduleRepository.insertState s owner scheduleId revision state stamp)
      (ScheduleRepository.insertState t owner scheduleId revision state stamp) := by
  unfold ScheduleRepository.insertState
  refine (insertRow_related agree.histories ?_ ?_).bind fun a b _ _ same =>
    .ok ⟨{ agree.toAgree with versions := same.mono fun _ => Or.inl }, same⟩
  · exact fun other _ hkey => Or.inr (congrArg Prod.fst hkey)
  · exact fun other _ hkey => Or.inr (congrArg Prod.fst hkey)

theorem deleteVersions (q : VersionRow → Bool) :
    AgreeOn owner scheduleId (ScheduleRepository.deleteVersions s scheduleId q)
      (ScheduleRepository.deleteVersions t scheduleId q) :=
  ⟨{ agree.toAgree with versions := agree.versions.delete }, agree.histories.delete⟩

theorem moveCursor (version revision : Nat) (stamp : Int) :
    AgreeOn owner scheduleId
      (ScheduleRepository.moveCursor s owner scheduleId version revision stamp)
      (ScheduleRepository.moveCursor t owner scheduleId version revision stamp) :=
  ⟨{ agree.toAgree with
      schedules := agree.schedules.update (by exact fun _ => rfl) fun _ h => h }, agree.histories⟩

theorem finish (requestId : UUID) (digest : CommandDigest) (version : Nat) :
    Alike owner (ScheduleRepository.finish s owner scheduleId requestId digest version)
      (ScheduleRepository.finish t owner scheduleId requestId digest version) := by
  unfold ScheduleRepository.finish
  refine (insertRow_related agree.commands ?_ ?_).bind fun a b _ _ same => ?_
  · exact fun other _ hkey => congrArg Prod.fst hkey
  · exact fun other _ hkey => congrArg Prod.fst hkey
  · have recorded : AgreeOn owner scheduleId { s with commands := a } { t with commands := b } :=
      ⟨{ agree.toAgree with commands := same }, agree.histories⟩
    simp only
    rw [recorded.view]
    exact .bind_left fun _ _ => .ok ⟨rfl, recorded.toAgree⟩

end AgreeOn

section
variable {owner : UUID} {s t : Store} (agree : Agree owner s t) (ownedS : VersionsOwned s)
  (ownedT : VersionsOwned t)
include agree ownedS ownedT

namespace Agree

theorem header (scheduleId : UUID) : ScheduleRepository.header s owner scheduleId =
    ScheduleRepository.header t owner scheduleId := by
  rcases agree.addressed ownedS ownedT scheduleId with addressed | absent
  · exact addressed.header
  · rw [header_absent absent, header_absent ((agree.scheduleRow scheduleId).symm.trans absent)]

theorem view (scheduleId : UUID) : ScheduleRepository.view s owner scheduleId =
    ScheduleRepository.view t owner scheduleId := by
  unfold ScheduleRepository.view
  rw [agree.header ownedS ownedT]
  refine Related.eq (.bind_left fun row _ => .ok ?_)
  rw [agree.sourceStatus]

theorem replay (requestId : UUID) (digest : CommandDigest) :
    ScheduleRepository.replay s owner requestId digest =
      ScheduleRepository.replay t owner requestId digest := by
  unfold ScheduleRepository.replay
  rw [agree.commands.find? fun _ hkey => congrArg Prod.fst hkey]
  split
  · rfl
  · rw [agree.view ownedS ownedT]

theorem listSchedules (limit offset : Nat) :
    ScheduleRepository.list s owner limit offset =
      ScheduleRepository.list t owner limit offset := by
  unfold ScheduleRepository.list
  have rows : sortBy (fun row : ScheduleRow => toLex (row.updatedAt, row.id))
        (s.schedules.select fun row => row.userId = owner) =
      sortBy (fun row : ScheduleRow => toLex (row.updatedAt, row.id))
        (t.schedules.select fun row => row.userId = owner) :=
    sortBy_select_eq agree.schedules (fun _ => of_decide_eq_true)
      fun _ _ _ _ heq => snd_of_toLex heq
  simp only
  rw [← rows]
  congr 2
  refine List.filterMap_congr fun row hrow => ?_
  obtain ⟨hmem, howner⟩ := Table.mem_select.mp (mem_sortBy.mp (List.mem_reverse.mp hrow))
  unfold summary
  rw [(agree.on ownedS ownedT hmem (of_decide_eq_true howner)).version]

theorem scheduleHistory (scheduleId : UUID) :
    ScheduleRepository.history s owner scheduleId =
      ScheduleRepository.history t owner scheduleId := by
  unfold ScheduleRepository.history
  rw [agree.header ownedS ownedT]
  rcases agree.addressed ownedS ownedT scheduleId with addressed | absent
  · rw [addressed.historyRows]
  · rw [header_absent ((agree.scheduleRow scheduleId).symm.trans absent)]
    rfl

theorem createSchedule (zoneInfo : String → Zone) (data : ScheduleCreate) (scheduleId : UUID)
    (now stamp : Int) (freshS : s.schedules.Unclaimed (fun row => row.userId = owner) scheduleId)
    (freshT : t.schedules.Unclaimed (fun row => row.userId = owner) scheduleId) :
    Alike owner (ScheduleRepository.create zoneInfo s owner data scheduleId now stamp)
      (ScheduleRepository.create zoneInfo t owner data scheduleId now stamp) := by
  unfold ScheduleRepository.create
  simp only
  rw [agree.ownerLock, agree.replay ownedS ownedT]
  refine .bind_left fun zone _ => .bind_left fun answer _ => ?_
  cases answer with
  | some result => exact .ok ⟨rfl, agree⟩
  | none =>
      simp only
      rw [agree.validate]
      refine .bind_left fun valid _ => .guard (agree.schedules.exists_iff fun row h => h.1)
        fun _ => ?_
      refine (insertRow_related agree.schedules freshS freshT).bind fun a b ha hb same => ?_
      -- no version stands under a free schedule id
      have none : ∀ {store : Store} {row : ScheduleRow} {schedules},
          VersionsOwned store → insertRow store.schedules row = .ok schedules →
          ∀ version ∈ store.versions, version.scheduleId ≠ row.id := by
        intro store row schedules owned hinsert version hversion hid
        obtain ⟨schedule, hschedule, hsame, -⟩ := owned version hversion
        exact (Table.insert?_eq_some (insertRow_ok.mp hinsert)).1 schedule hschedule
          (hsame.trans hid)
      have inserted : AgreeOn owner scheduleId { s with schedules := a }
          { t with schedules := b } := by
        refine ⟨{ agree with schedules := same }, fun row hrow => ?_⟩
        rcases hrow with huser | hid
        · exact agree.versions row huser
        · exact iff_of_false (fun h => none ownedS ha row h hid) fun h => none ownedT hb row h hid
      refine (inserted.insertState 1 valid.1 stamp).bind fun _ _ _ _ stated => ?_
      exact (stated.allocate _).bind fun _ _ _ _ allocated => allocated.finish _ _ _

theorem replaceSchedule (zoneInfo : String → Zone) (scheduleId : UUID) (data : ScheduleReplace)
    (now stamp : Int) :
    Alike owner (ScheduleRepository.replace zoneInfo s owner scheduleId data now stamp)
      (ScheduleRepository.replace zoneInfo t owner scheduleId data now stamp) := by
  unfold ScheduleRepository.replace
  simp only
  rw [agree.ownerLock, agree.header ownedS ownedT, agree.replay ownedS ownedT]
  refine .bind_left fun zone _ => .bind_left fun found hfound => .bind_left fun answer _ => ?_
  cases answer with
  | some result => exact .ok ⟨rfl, agree⟩
  | none =>
      simp only
      rw [agree.validate]
      refine .bind_left fun version _ => .bind_left fun valid _ => ?_
      obtain ⟨-, present, rfl, howner, -⟩ := header_ok.mp hfound
      have addressed := agree.on ownedS ownedT ((agree.schedules _ howner).mpr present) howner
      refine (addressed.allocate _).bind fun _ _ _ _ allocated => ?_
      refine ((allocated.deleteVersions _).insertState _ _ _).bind fun _ _ _ _ stated => ?_
      have moved := stated.moveCursor version version stamp
      rw [moved.keptRevisions]
      exact (moved.deleteVersions _).finish _ _ _

theorem travelSchedule (zoneInfo : String → Zone) (scheduleId : UUID) (data : HistoryCommand)
    (direction : Direction) (now stamp : Int) :
    Alike owner (ScheduleRepository.travel zoneInfo s owner scheduleId data direction now stamp)
      (ScheduleRepository.travel zoneInfo t owner scheduleId data direction now stamp) := by
  unfold ScheduleRepository.travel
  simp only
  rw [agree.ownerLock, agree.header ownedS ownedT, agree.replay ownedS ownedT]
  refine .bind_left fun zone _ => .bind_left fun found hfound => .bind_left fun answer _ => ?_
  cases answer with
  | some result => exact .ok ⟨rfl, agree⟩
  | none =>
      obtain ⟨-, present, rfl, howner, -⟩ := header_ok.mp hfound
      have addressed := agree.on ownedS ownedT ((agree.schedules _ howner).mpr present) howner
      simp only
      rw [addressed.target]
      refine .bind_left fun version _ => ?_
      split
      · exact .error _
      · rw [agree.validate]
        refine .bind_left fun _ _ => (addressed.allocate _).bind fun _ _ _ _ allocated => ?_
        exact (allocated.moveCursor _ _ _).finish _ _ _

end Agree

end

end SmartPlanner
