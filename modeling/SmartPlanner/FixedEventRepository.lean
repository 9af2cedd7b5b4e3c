import SmartPlanner.Store
import SmartPlanner.Timestamps
import SmartPlanner.Library.Sorting
import Mathlib.Data.Prod.Lex

/-!
`fixed_event_repository.py`: durable commitments. A row carries the contract of
the request it was written from, so `_record` is the identity. Every datetime among
the parameters of a statement is encoded before it runs.
-/

namespace SmartPlanner

open Outcome Sorting Tables

namespace AppError

def fixedEventNotFound : AppError :=
  ⟨404, .fixedEventNotFound, "تعهد ثابت پیدا نشد."⟩

def staleFixedEvent : AppError :=
  ⟨409, .staleFixedEvent, "این تعهد در جای دیگری تغییر کرده؛ صفحه را تازه کنید."⟩

end AppError

structure FixedEventReplace extends FixedEventCreate where
  expectedVersion : Nat
  versionValid : VersionValid expectedVersion

/-- A stretch of time that keeps clear of a stored event. -/
def FixedEventRow.Clear (event : FixedEventRow) (window : TimeWindow) : Prop :=
  window.stop ≤ event.start ∨ event.stop ≤ window.start

instance (event : FixedEventRow) (window : TimeWindow) : Decidable (event.Clear window) :=
  inferInstanceAs (Decidable (_ ∨ _))

namespace FixedEventRepository
variable (store : Store)

def create (owner : UUID) (data : FixedEventCreate) (id : UUID) (stamp : Int) :
    Except PyError (FixedEventRow × Store) := do
  let _ ← [data.start, data.stop].mapM encodeUtc
  raiseIf (store.users.find? owner = none) .database
  let row : FixedEventRow := ⟨data, id, owner, 1, stamp, stamp⟩
  let events ← insertRow store.events row
  return (row, { store with events })

/-- The stored events of an owner that meet `[start, stop)`, by start and id. -/
def overlapping (owner : UUID) (start stop : Int) : List FixedEventRow :=
  sortBy (fun row => toLex (row.start, row.id)) (store.events.select fun row =>
    row.userId = owner && start < row.stop && row.start < stop)

/-- `list` with both ends of the range given, where `encode` does not fail. -/
def list (owner : UUID) (start stop : Int) (limit offset : Nat) : List FixedEventRow :=
  ((overlapping store owner start stop).drop offset).take limit

/-- The rows of `list`, where either end of the range may be missing. -/
def rowsIn (owner : UUID) (start stop : Option Int) (limit offset : Nat) : List FixedEventRow :=
  let rows := sortBy (fun row : FixedEventRow => toLex (row.start, row.id))
    (store.events.select fun row =>
      row.userId = owner && start.all (· < row.stop) && stop.all (row.start < ·))
  (rows.drop offset).take limit

/-- `list` with the ends that a client sends. -/
def page (owner : UUID) (start stop : Option Int) (limit offset : Nat) :
    Except PyError (List FixedEventRow) := do
  let _ ← (start.toList ++ stop.toList).mapM encodeUtc
  return rowsIn store owner start stop limit offset

def get (owner eventId : UUID) : Except PyError FixedEventRow :=
  match store.events.rows.find? fun row => row.userId = owner && row.id = eventId with
  | some row => .ok row
  | none => .error (.app .fixedEventNotFound)

def replace (owner eventId : UUID) (data : FixedEventReplace) (stamp : Int) :
    Except PyError (FixedEventRow × Store) := do
  let _ ← [data.start, data.stop].mapM encodeUtc
  let guard := fun row : FixedEventRow => decide (row.userId = owner) &&
    decide (row.id = eventId) && decide (row.version = data.expectedVersion)
  let assign := fun row : FixedEventRow => { row with
    toFixedEventCreate := data.toFixedEventCreate, version := row.version + 1, updatedAt := stamp }
  match store.events.rows.find? guard with
  | some row => .ok (assign row, { store with
      events := store.events.update guard assign fun _ => rfl })
  | none => do
      let _ ← get store owner eventId
      .error (.app .staleFixedEvent)

def delete (owner eventId : UUID) (expectedVersion : Nat) : Except PyError Store :=
  let guard := fun row : FixedEventRow => decide (row.userId = owner) &&
    decide (row.id = eventId) && decide (row.version = expectedVersion)
  match store.events.rows.find? guard with
  | some _ => .ok { store with events := store.events.delete guard }
  | none => do
      let _ ← get store owner eventId
      .error (.app .staleFixedEvent)

/-- The ends are those of a horizon between 2000 and 2101, up to an offset of less
than a day, so that `encode` cannot fail. -/
def planningEvents (owner : UUID) (start stop : Int) : List FixedEventRow :=
  list store owner start stop 100 0

variable {store}

theorem mem_overlapping {owner : UUID} {start stop : Int} {row : FixedEventRow} :
    row ∈ overlapping store owner start stop ↔
      row ∈ store.events ∧ row.userId = owner ∧ start < row.stop ∧ row.start < stop := by
  simp [overlapping, Table.mem_select, and_assoc]

theorem page_eq {owner : UUID} {start stop : Option Int} {limit offset : Nat}
    (hstart : ∀ t ∈ start, InYears t) (hstop : ∀ t ∈ stop, InYears t) :
    page store owner start stop limit offset =
      .ok (rowsIn store owner start stop limit offset) := by
  have ends : ∀ t ∈ start.toList ++ stop.toList, InYears t := by
    simp only [List.mem_append, Option.mem_toList]
    exact fun t h => h.elim (hstart t) (hstop t)
  unfold page
  rw [mapM_encodeUtc ends]
  rfl

/-- `planning_events` is a page where both ends can be encoded. -/
theorem page_eq_planningEvents {owner : UUID} {start stop : Int} (hstart : InYears start)
    (hstop : InYears stop) :
    page store owner (some start) (some stop) 100 0 =
      .ok (planningEvents store owner start stop) :=
  page_eq (by simpa using hstart) (by simpa using hstop)

theorem encoded_window {data : FixedEventCreate} {texts : List (List Char)}
    (h : [data.start, data.stop].mapM encodeUtc = .ok texts) :
    InYears data.start ∧ InYears data.stop := by
  have years := mapM_encodeUtc_ok h
  simpa only [List.forall_mem_cons, List.not_mem_nil, false_imp_iff, implies_true, and_true]
    using years

/-- What a successful create read and wrote. -/
theorem create_ok {store' : Store} {owner id : UUID} {data : FixedEventCreate} {stamp : Int}
    {answer : FixedEventRow} (h : create store owner data id stamp = .ok (answer, store')) :
    (InYears data.start ∧ InYears data.stop) ∧ answer = ⟨data, id, owner, 1, stamp, stamp⟩ ∧
      (∃ user ∈ store.users, user.id = owner) ∧
      ∃ events, insertRow store.events answer = .ok events ∧ store' = { store with events } := by
  unfold create at h
  simp only [bind_ok, pure_eq_ok, Except.ok.injEq, Prod.mk.injEq, raiseIf_ok] at h
  obtain ⟨texts, htexts, -, haccount, events, hevents, rfl, rfl⟩ := h
  obtain ⟨user, huser⟩ := Option.ne_none_iff_exists'.mp haccount
  exact ⟨encoded_window htexts, rfl, ⟨user, Table.find?_eq_some.mp huser⟩, events, hevents, rfl⟩

/-- What a successful replace wrote. -/
theorem replace_ok {store' : Store} {owner eventId : UUID} {data : FixedEventReplace} {stamp : Int}
    {answer : FixedEventRow}
    (h : replace store owner eventId data stamp = .ok (answer, store')) :
    (InYears data.start ∧ InYears data.stop) ∧
      store' = { store with
        events := store.events.update (fun row => decide (row.userId = owner) &&
            decide (row.id = eventId) && decide (row.version = data.expectedVersion))
          (fun row => { row with
            toFixedEventCreate := data.toFixedEventCreate
            version := row.version + 1
            updatedAt := stamp }) fun _ => rfl } := by
  unfold replace at h
  rw [bind_ok] at h
  obtain ⟨texts, htexts, h⟩ := h
  refine ⟨encoded_window htexts, ?_⟩
  simp only at h
  split at h
  · rw [Except.ok.injEq, Prod.mk.injEq] at h
    exact h.2.symm
  · rw [bind_ok] at h
    obtain ⟨-, -, h⟩ := h
    contradiction

/-- The listing is a page of at most a hundred of the events. -/
theorem planningEvents_eq (owner : UUID) (start stop : Int) :
    planningEvents store owner start stop = (overlapping store owner start stop).take 100 := rfl

end FixedEventRepository

end SmartPlanner
