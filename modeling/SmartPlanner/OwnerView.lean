import SmartPlanner.Operations
import SmartPlanner.RecurrenceRows
import SmartPlanner.TaskRows

/-!
What one owner sees of a store: the rows that belong to it. On stores with the
same rows of an owner, what the repositories of tasks, preferences, patterns and
events do for that owner is the same, errors included.
-/

namespace SmartPlanner

open Outcome Sorting Tables

/-- Two stores with the same rows of an owner. -/
structure Agree (owner : UUID) (s t : Store) : Prop where
  users : s.users.SameOn (fun row => row.id = owner) t.users
  preferences : s.preferences.SameOn (fun row => row.userId = owner) t.preferences
  tasks : s.tasks.SameOn (fun row => row.userId = owner) t.tasks
  recurrences : s.recurrences.SameOn (fun row => row.userId = owner) t.recurrences
  events : s.events.SameOn (fun row => row.userId = owner) t.events
  schedules : s.schedules.SameOn (fun row => row.userId = owner) t.schedules
  versions : s.versions.SameOn (fun row => row.userId = owner) t.versions
  commands : s.commands.SameOn (fun row => row.userId = owner) t.commands
  allocations : s.allocations.SameOn (fun row => row.userId = owner) t.allocations

/-- Results with the same answer, or the same error, and the same rows of an
owner. -/
abbrev Alike (owner : UUID) {α : Type} :
    Except PyError (α × Store) → Except PyError (α × Store) → Prop :=
  Related fun a b => a.1 = b.1 ∧ Agree owner a.2 b.2

theorem insertRow_related {κ α : Type} [DecidableEq κ] {key : α → κ} {own : α → Prop}
    {a b : Table key} {row : α} (same : a.SameOn own b)
    (ownedA : a.Unclaimed own (key row)) (ownedB : b.Unclaimed own (key row)) :
    Related (Table.SameOn own) (insertRow a row) (insertRow b row) := by
  have h := same.insert? ownedA ownedB
  unfold insertRow
  generalize a.insert? row = x, b.insert? row = y at h
  cases h with
  | none => exact .error _
  | some h => exact .ok h

theorem insertRows_related {κ α : Type} [DecidableEq κ] {key : α → κ} {own : α → Prop}
    {a b : Table key} {rows : List α} (same : a.SameOn own b)
    (owned : ∀ row ∈ rows, ∀ other, key other = key row → own other) :
    Related (Table.SameOn own) (insertRows a rows) (insertRows b rows) := by
  have h := same.insertAll? owned
  unfold insertRows
  generalize a.insertAll? rows = x, b.insertAll? rows = y at h
  cases h with
  | none => exact .error _
  | some h => exact .ok h

/-- An ordered selection of own rows. -/
theorem sortBy_select_eq {κ κ' α : Type} [LinearOrder κ'] {key : α → κ} {own : α → Prop}
    {a b : Table key} {p : α → Bool} {order : α → κ'} (same : a.SameOn own b)
    (owned : ∀ row, p row = true → own row)
    (total : ∀ x y, p x = true → p y = true → order x = order y → key x = key y) :
    sortBy order (a.select p) = sortBy order (b.select p) := by
  refine sortBy_eq_of_perm (same.select_perm owned) fun x hx y hy heq => ?_
  obtain ⟨hx, hpx⟩ := Table.mem_select.mp hx
  obtain ⟨hy, hpy⟩ := Table.mem_select.mp hy
  exact a.eq_of_key hx hy (total x y hpx hpy heq)

theorem snd_of_toLex {a a' : Int} {b b' : UUID} (h : toLex (a, b) = toLex (a', b')) : b = b' :=
  congrArg Prod.snd (toLex.injective h)

namespace Agree

theorem refl (owner : UUID) (s : Store) : Agree owner s s :=
  ⟨.refl _, .refl _, .refl _, .refl _, .refl _, .refl _, .refl _, .refl _, .refl _⟩

theorem symm {owner : UUID} {s t : Store} (h : Agree owner s t) : Agree owner t s :=
  ⟨h.users.symm, h.preferences.symm, h.tasks.symm, h.recurrences.symm, h.events.symm,
    h.schedules.symm, h.versions.symm, h.commands.symm, h.allocations.symm⟩

theorem trans {owner : UUID} {s t u : Store} (h : Agree owner s t) (h' : Agree owner t u) :
    Agree owner s u :=
  ⟨h.users.trans h'.users, h.preferences.trans h'.preferences, h.tasks.trans h'.tasks,
    h.recurrences.trans h'.recurrences, h.events.trans h'.events, h.schedules.trans h'.schedules,
    h.versions.trans h'.versions, h.commands.trans h'.commands,
    h.allocations.trans h'.allocations⟩

variable {owner : UUID} {s t : Store} (agree : Agree owner s t)
include agree

/-! Tasks. -/

theorem user : s.users.find? owner = t.users.find? owner :=
  agree.users.find? fun _ h => h

theorem getTask (taskId : UUID) :
    Repository.getTask s owner taskId = Repository.getTask t owner taskId := by
  unfold Repository.getTask
  rw [agree.tasks.rows_find?_key taskId fun row hp => by
    simp only [Bool.and_eq_true, decide_eq_true_eq] at hp
    exact ⟨hp.1.2, hp.1.1⟩]

theorem listTasks (limit offset : Nat) :
    Repository.listTasks s owner limit offset = Repository.listTasks t owner limit offset := by
  unfold Repository.listTasks
  rw [sortBy_select_eq agree.tasks]
  · intro row hp
    simp only [Bool.and_eq_true, decide_eq_true_eq] at hp
    exact hp.1
  · exact fun _ _ _ _ heq => snd_of_toLex heq

theorem getPreferences : Repository.getPreferences s owner = Repository.getPreferences t owner := by
  unfold Repository.getPreferences
  rw [agree.preferences.find? fun _ h => h]

theorem planningInputs (taskIds : List UUID) :
    Repository.planningInputs s owner taskIds = Repository.planningInputs t owner taskIds := by
  unfold Repository.planningInputs
  rw [agree.getPreferences, sortBy_select_eq agree.tasks]
  · intro row hp
    simp only [Bool.and_eq_true, decide_eq_true_eq] at hp
    exact hp.1.1
  · exact fun _ _ _ _ heq => heq

theorem insertTask {row : TaskRow} (howner : row.userId = owner)
    (freshS : s.tasks.Unclaimed (fun row => row.userId = owner) row.id)
    (freshT : t.tasks.Unclaimed (fun row => row.userId = owner) row.id) :
    Related (Agree owner) (SmartPlanner.insertTask s row) (SmartPlanner.insertTask t row) := by
  unfold SmartPlanner.insertTask
  rw [howner]
  refine .guard Iff.rfl fun _ => .guard (by rw [agree.user]) fun _ => .guard ?_ fun _ =>
    .guard ?_ fun _ => ?_
  · exact agree.tasks.exists_iff fun other h => h.1
  · exact and_congr_right fun _ => agree.tasks.exists_iff fun other h => h.1
  · exact (insertRow_related agree.tasks freshS freshT).bind fun a b _ _ same =>
      .ok { agree with tasks := same }

theorem createTask (keysS : TaskKeys s) (keysT : TaskKeys t) (task : TaskCreate) (id : UUID)
    (stamp : Int) (freshS : s.tasks.Unclaimed (fun row => row.userId = owner) id)
    (freshT : t.tasks.Unclaimed (fun row => row.userId = owner) id) :
    Alike owner (Repository.createTask s owner task id stamp)
      (Repository.createTask t owner task id stamp) := by
  have unique : ∀ {store : Store}, TaskKeys store → ∀ x ∈ store.tasks, ∀ y ∈ store.tasks,
      (x.userId = owner && x.clientRequestId = task.clientRequestId) = true →
      (y.userId = owner && y.clientRequestId = task.clientRequestId) = true → x = y := by
    intro store keys x hx y hy hpx hpy
    simp only [Bool.and_eq_true, decide_eq_true_eq] at hpx hpy
    exact keys.requests x hx y hy (hpx.1.trans hpy.1.symm) (hpx.2.trans hpy.2.symm)
  unfold Repository.createTask
  refine .bind_left fun _ _ => ?_
  rw [agree.tasks.rows_find? (fun row hp => by
    simp only [Bool.and_eq_true, decide_eq_true_eq] at hp
    exact hp.1) (unique keysS) (unique keysT)]
  split
  · exact .bind_left fun _ _ => .bind_left fun _ _ => .bind_left fun _ _ => .ok ⟨rfl, agree⟩
  · exact (agree.insertTask rfl freshS freshT).bind fun a b _ _ same =>
      .bind_left fun _ _ => .ok ⟨rfl, same⟩

theorem guardedTask (taskId : UUID) (expectedVersion : Nat) :
    s.tasks.rows.find? (TaskRow.guarded owner taskId expectedVersion) =
      t.tasks.rows.find? (TaskRow.guarded owner taskId expectedVersion) :=
  agree.tasks.rows_find?_key taskId fun _ hp =>
    ⟨(Repository.guarded_iff.mp hp).2.1, (Repository.guarded_iff.mp hp).1⟩

theorem updateTask (taskId : UUID) (patch : TaskPatch) (stamp : Int) :
    Alike owner (Repository.updateTask s owner taskId patch stamp)
      (Repository.updateTask t owner taskId patch stamp) := by
  unfold Repository.updateTask
  rw [agree.getTask]
  refine .bind_left fun current _ => ?_
  split
  · exact .error _
  · exact .error _
  · exact .error _
  · next prepared _ =>
      simp only
      rw [agree.guardedTask taskId patch.expectedVersion]
      cases t.tasks.rows.find? (TaskRow.guarded owner taskId patch.expectedVersion) with
      | none => exact .error _
      | some row =>
          refine .bind_left fun _ _ => .bind_left fun _ _ => .ok ⟨rfl, { agree with tasks := ?_ }⟩
          exact agree.tasks.update (by exact fun _ => rfl) fun _ h => h

theorem deleteTask (taskId : UUID) (expectedVersion : Nat) (stamp : Int) :
    Related (Agree owner) (Repository.deleteTask s owner taskId expectedVersion stamp)
      (Repository.deleteTask t owner taskId expectedVersion stamp) := by
  unfold Repository.deleteTask
  rw [agree.getTask]
  refine .bind_left fun current _ => .bind_left fun _ _ => ?_
  simp only
  rw [agree.guardedTask taskId expectedVersion]
  cases t.tasks.rows.find? (TaskRow.guarded owner taskId expectedVersion) with
  | none => exact .error _
  | some row =>
      refine .ok { agree with tasks := ?_ }
      exact agree.tasks.update (by exact fun _ => rfl) fun _ h => h

theorem updatePreferences (update : PreferencePut) (stamp : Int) :
    Alike owner (Repository.updatePreferences s owner update stamp)
      (Repository.updatePreferences t owner update stamp) := by
  unfold Repository.updatePreferences
  simp only
  rw [agree.preferences.rows_find?_key owner fun row hp => by
    simp only [Bool.and_eq_true, decide_eq_true_eq] at hp
    exact ⟨hp.1, hp.1⟩]
  split
  · exact .error _
  · refine .bind_left fun _ _ => .ok ⟨rfl, { agree with preferences := ?_ }⟩
    exact agree.preferences.update (by exact fun _ => rfl) fun _ h => h

/-! Patterns. -/

theorem getRecurrence (recurrenceId : UUID) :
    RecurrenceRepository.get s owner recurrenceId =
      RecurrenceRepository.get t owner recurrenceId := by
  unfold RecurrenceRepository.get
  rw [agree.recurrences.rows_find?_key recurrenceId fun row hp => by
    simp only [Bool.and_eq_true, decide_eq_true_eq] at hp
    exact ⟨hp.1.2, hp.1.1⟩]

theorem listRecurrences (limit offset : Nat) :
    RecurrenceRepository.list s owner limit offset =
      RecurrenceRepository.list t owner limit offset := by
  unfold RecurrenceRepository.list
  rw [sortBy_select_eq agree.recurrences]
  · intro row hp
    simp only [Bool.and_eq_true, decide_eq_true_eq] at hp
    exact hp.1
  · exact fun _ _ _ _ heq => snd_of_toLex heq

theorem createRecurrence (keysS : RecurrenceKeys s) (keysT : RecurrenceKeys t)
    (data : RecurrenceCreate) (id : UUID) (stamp : Int)
    (freshS : s.recurrences.Unclaimed (fun row => row.userId = owner) id)
    (freshT : t.recurrences.Unclaimed (fun row => row.userId = owner) id) :
    Alike owner (RecurrenceRepository.create s owner data id stamp)
      (RecurrenceRepository.create t owner data id stamp) := by
  have unique : ∀ {store : Store}, RecurrenceKeys store → ∀ x ∈ store.recurrences,
      ∀ y ∈ store.recurrences,
      (x.userId = owner && x.clientRequestId = data.clientRequestId) = true →
      (y.userId = owner && y.clientRequestId = data.clientRequestId) = true → x = y := by
    intro store keys x hx y hy hpx hpy
    simp only [Bool.and_eq_true, decide_eq_true_eq] at hpx hpy
    exact keys x hx y hy (hpx.1.trans hpy.1.symm) (hpx.2.trans hpy.2.symm)
  unfold RecurrenceRepository.create
  rw [agree.user, agree.recurrences.rows_find? (fun row hp => by
    simp only [Bool.and_eq_true, decide_eq_true_eq] at hp
    exact hp.1) (unique keysS) (unique keysT)]
  split
  · exact (insertRow_related agree.recurrences freshS freshT).bind fun a b _ _ same =>
      .bind_left fun _ _ => .ok ⟨rfl, { agree with recurrences := same }⟩
  · exact .error _
  · exact .bind_left fun _ _ => .bind_left fun _ _ => .bind_left fun _ _ => .ok ⟨rfl, agree⟩

theorem replaceRecurrence (recurrenceId : UUID) (data : RecurrenceReplace) (stamp : Int) :
    Alike owner (RecurrenceRepository.replace s owner recurrenceId data stamp)
      (RecurrenceRepository.replace t owner recurrenceId data stamp) := by
  unfold RecurrenceRepository.replace
  rw [agree.getRecurrence]
  refine .bind_left fun current _ => .bind_left fun _ _ => ?_
  simp only
  rw [agree.recurrences.rows_find?_key recurrenceId fun row hp =>
    (RecurrenceRepository.owned_iff.mp hp).symm]
  cases t.recurrences.rows.find? (RecurrenceRepository.owned owner recurrenceId) with
  | none => exact .error _
  | some row =>
      refine .bind_left fun _ _ => .ok ⟨rfl, { agree with recurrences := ?_ }⟩
      exact agree.recurrences.update (by exact fun _ => rfl) fun _ h => h

theorem deleteRecurrence (recurrenceId : UUID) (expectedVersion : Nat) (stamp : Int) :
    Related (Agree owner) (RecurrenceRepository.delete s owner recurrenceId expectedVersion stamp)
      (RecurrenceRepository.delete t owner recurrenceId expectedVersion stamp) := by
  unfold RecurrenceRepository.delete
  rw [agree.getRecurrence]
  refine .bind_left fun current _ => .bind_left fun _ _ =>
    .ok { agree with recurrences := ?_ }
  exact agree.recurrences.update (by exact fun _ => rfl) fun _ h => h

/-- Inserting a list of own tasks whose ids no other owner has. -/
theorem insertTasks {rows : List TaskRow} (howner : ∀ row ∈ rows, row.userId = owner)
    (freshS : ∀ row ∈ rows, s.tasks.Unclaimed (fun row => row.userId = owner) row.id)
    (freshT : ∀ row ∈ rows, t.tasks.Unclaimed (fun row => row.userId = owner) row.id) :
    Related (Agree owner) (rows.foldlM SmartPlanner.insertTask s)
      (rows.foldlM SmartPlanner.insertTask t) := by
  let fresh (store : Store) : Prop :=
    ∀ row ∈ rows, store.tasks.Unclaimed (fun row => row.userId = owner) row.id
  have stays : ∀ row ∈ rows, ∀ store store', fresh store →
      SmartPlanner.insertTask store row = .ok store' → fresh store' := by
    intro row hrow store store' hfresh h next hnext other hother hid
    rcases ((insertTask_ok h).mem other).mp hother with hold | rfl
    · exact hfresh next hnext other hold hid
    · exact howner other hrow
  refine (Related.foldlM (R := fun a b => Agree owner a b ∧ fresh a ∧ fresh b)
    ⟨agree, freshS, freshT⟩ fun row hrow a b ⟨hagree, hfreshA, hfreshB⟩ => ?_).mono
      fun a b h => h.1
  exact (hagree.insertTask (howner row hrow) (hfreshA row hrow) (hfreshB row hrow)).strengthen
    (fun a' ha => stays row hrow a a' hfreshA ha) fun b' hb => stays row hrow b b' hfreshB hb

end Agree

theorem occurrenceDates_length (values : RecurrenceValues) (start : Int) (days : Nat) :
    (occurrenceDates values start days).length ≤ days := by
  unfold occurrenceDates
  split
  · refine (List.length_filter_le _ _).trans ?_
    rw [List.length_map, List.length_range]
  · exact Nat.zero_le days

namespace Agree
variable {owner : UUID} {s t : Store} (agree : Agree owner s t)
include agree

theorem insertOccurrences (zone : Zone) (series : RecurrenceRecord) (days : List Int)
    (fresh : Nat → UUID × UUID) (stamp : Int)
    (freshS : ∀ index < days.length,
      s.tasks.Unclaimed (fun row => row.userId = owner) (fresh index).1)
    (freshT : ∀ index < days.length,
      t.tasks.Unclaimed (fun row => row.userId = owner) (fresh index).1) :
    Alike owner (RecurrenceRepository.insertOccurrences s zone owner series days fresh stamp)
      (RecurrenceRepository.insertOccurrences t zone owner series days fresh stamp) := by
  unfold RecurrenceRepository.insertOccurrences
  refine .bind_left fun rows hrows => ?_
  have drawn := RecurrenceRepository.occurrenceRows_generated hrows
  have inserted := agree.insertTasks (fun row hrow => (drawn row hrow).1)
    (fun row hrow => by
      obtain ⟨-, -, -, index, hlt, hid⟩ := drawn row hrow
      exact hid ▸ freshS index hlt)
    (fun row hrow => by
      obtain ⟨-, -, -, index, hlt, hid⟩ := drawn row hrow
      exact hid ▸ freshT index hlt)
  exact inserted.bind fun a b _ _ same => .bind_left fun _ _ => .ok ⟨rfl, same⟩

theorem materialize (zoneInfo : String → Zone) (recurrenceId : UUID) (request : OccurrenceRequest)
    (fresh : Nat → UUID × UUID) (now stamp : Int)
    (freshS : ∀ index < request.days,
      s.tasks.Unclaimed (fun row => row.userId = owner) (fresh index).1)
    (freshT : ∀ index < request.days,
      t.tasks.Unclaimed (fun row => row.userId = owner) (fresh index).1) :
    Alike owner
      (RecurrenceRepository.materialize s zoneInfo owner recurrenceId request fresh now stamp)
      (RecurrenceRepository.materialize t zoneInfo owner recurrenceId request fresh now stamp) := by
  unfold RecurrenceRepository.materialize
  rw [agree.getRecurrence, sortBy_select_eq agree.tasks]
  · refine .bind_left fun series _ => .bind_left fun _ _ => ?_
    simp only
    refine .bind_left fun tasks _ =>
      Related.bind (R := fun a b => a.1 = b.1 ∧ Agree owner a.2 b.2) ?_ ?_
    · have few : ∀ {p q : Int → Bool}, (((occurrenceDates series.toRecurrenceValues
          request.startDate request.days).filter p).filter q).length ≤ request.days :=
        fun {p q} => (List.length_filter_le q _).trans ((List.length_filter_le p _).trans
          (occurrenceDates_length _ _ _))
      exact agree.insertOccurrences _ series _ fresh stamp
        (fun index hlt => freshS index (Nat.lt_of_lt_of_le hlt few))
        (fun index hlt => freshT index (Nat.lt_of_lt_of_le hlt few))
    · rintro ⟨created, s'⟩ ⟨created', t'⟩ - - ⟨rfl, same⟩
      exact .ok ⟨rfl, same⟩
  · intro row hp
    simp only [Bool.and_eq_true, decide_eq_true_eq] at hp
    exact hp.1.1
  · exact fun _ _ _ _ heq => heq

/-! Events. -/

theorem getEvent (eventId : UUID) :
    FixedEventRepository.get s owner eventId = FixedEventRepository.get t owner eventId := by
  unfold FixedEventRepository.get
  rw [agree.events.rows_find?_key eventId fun row hp => by
    simp only [Bool.and_eq_true, decide_eq_true_eq] at hp
    exact hp]

theorem pageEvents (start stop : Option Int) (limit offset : Nat) :
    FixedEventRepository.page s owner start stop limit offset =
      FixedEventRepository.page t owner start stop limit offset := by
  unfold FixedEventRepository.page FixedEventRepository.rowsIn
  rw [sortBy_select_eq agree.events]
  · intro row hp
    simp only [Bool.and_eq_true, decide_eq_true_eq] at hp
    exact hp.1.1
  · exact fun _ _ _ _ heq => snd_of_toLex heq

theorem createEvent (data : FixedEventCreate) (id : UUID) (stamp : Int)
    (freshS : s.events.Unclaimed (fun row => row.userId = owner) id)
    (freshT : t.events.Unclaimed (fun row => row.userId = owner) id) :
    Alike owner (FixedEventRepository.create s owner data id stamp)
      (FixedEventRepository.create t owner data id stamp) := by
  unfold FixedEventRepository.create
  refine .bind_left fun _ _ => .guard (by rw [agree.user]) fun _ => ?_
  exact (insertRow_related agree.events freshS freshT).bind fun a b _ _ same =>
    .ok ⟨rfl, { agree with events := same }⟩

theorem guardedEvent (eventId : UUID) (expectedVersion : Nat) :
    (s.events.rows.find? fun row => decide (row.userId = owner) && decide (row.id = eventId) &&
        decide (row.version = expectedVersion)) =
      t.events.rows.find? fun row => decide (row.userId = owner) && decide (row.id = eventId) &&
        decide (row.version = expectedVersion) :=
  agree.events.rows_find?_key eventId fun row hp => by
    simp only [Bool.and_eq_true, decide_eq_true_eq] at hp
    exact hp.1

theorem replaceEvent (eventId : UUID) (data : FixedEventReplace) (stamp : Int) :
    Alike owner (FixedEventRepository.replace s owner eventId data stamp)
      (FixedEventRepository.replace t owner eventId data stamp) := by
  unfold FixedEventRepository.replace
  refine .bind_left fun _ _ => ?_
  simp only
  rw [agree.guardedEvent eventId data.expectedVersion]
  split
  · refine .ok ⟨rfl, { agree with events := ?_ }⟩
    exact agree.events.update (by exact fun _ => rfl) fun _ h => h
  · rw [agree.getEvent]
    exact .bind_left fun _ _ => .error _

theorem deleteEvent (eventId : UUID) (expectedVersion : Nat) :
    Related (Agree owner) (FixedEventRepository.delete s owner eventId expectedVersion)
      (FixedEventRepository.delete t owner eventId expectedVersion) := by
  unfold FixedEventRepository.delete
  simp only
  rw [agree.guardedEvent eventId expectedVersion]
  split
  · exact .ok { agree with events := agree.events.delete }
  · rw [agree.getEvent]
    exact .bind_left fun _ _ => .error _

end Agree

end SmartPlanner
