import SmartPlanner.RecurrenceModels
import SmartPlanner.ScheduleModels
import SmartPlanner.Library.Outcome
import SmartPlanner.Library.Table

/-!
The tables of `db/` and one store value holding them all. Every repository
function is a map from a store to an answer and the next store; an error stands
for the rollback of its transaction. `uuid4()`, `clock_timestamp()` and the
clock of the process are arguments. Foreign keys are not modelled where the
function has just read the referenced row.
-/

namespace SmartPlanner

open Outcome Tables

structure UserRow where
  id : UUID
  email : String
  timezone : String
  createdAt : Int
deriving DecidableEq

/-- `user_preferences`; the stored values always come from a validated
contract. -/
structure PreferenceRow where
  userId : UUID
  values : PreferenceValues
  version : Nat
  updatedAt : Int
deriving DecidableEq

/-- SQLite's `trim(text)`: U+0020 at both ends. -/
def sqlTrim (text : List Char) : List Char :=
  ((text.dropWhile (· = ' ')).reverse.dropWhile (· = ' ')).reverse

/-- SQLite's `length(text)`, which stops at the first U+0000. -/
def sqlLength (text : List Char) : Nat := (text.takeWhile (· ≠ '\x00')).length

/-- `CHECK(length(trim(title)) BETWEEN 1 AND 200)` of the table `tasks`. -/
def TitleCheck (title : String) : Prop :=
  1 ≤ sqlLength (sqlTrim title.toList) ∧ sqlLength (sqlTrim title.toList) ≤ 200

instance (title : String) : Decidable (TitleCheck title) :=
  inferInstanceAs (Decidable (_ ∧ _))

theorem dropWhile_blank {text : List Char} (h : text.head? ≠ some ' ') :
    text.dropWhile (· = ' ') = text := by
  cases text with
  | nil => rfl
  | cons head tail =>
      have hne : head ≠ ' ' := by simpa using h
      simp [hne]

theorem sqlTrim_of_ends {text : List Char} (first : text.head? ≠ some ' ')
    (last : text.getLast? ≠ some ' ') : sqlTrim text = text := by
  unfold sqlTrim
  rw [dropWhile_blank first, dropWhile_blank (by rwa [List.head?_reverse]), List.reverse_reverse]

theorem one_le_sqlLength {text : List Char} (h : text ≠ []) :
    1 ≤ sqlLength text ↔ text.head? ≠ some '\x00' := by
  cases text with
  | nil => contradiction
  | cons head tail =>
      by_cases hhead : head = '\x00' <;> simp [sqlLength, hhead]

theorem sqlLength_le (text : List Char) : sqlLength text ≤ text.length :=
  (List.takeWhile_prefix _).length_le

/-- A title of the contract with no blank at its ends passes unless it begins
with U+0000. -/
theorem titleCheck_iff {title : String} (valid : TitleValid title)
    (first : title.toList.head? ≠ some ' ') (last : title.toList.getLast? ≠ some ' ') :
    TitleCheck title ↔ title.toList.head? ≠ some '\x00' := by
  have hlength : title.toList.length = title.length := String.length_toList
  have hlower : 1 ≤ title.length := valid.1
  have hupper : title.length ≤ 200 := valid.2
  have hne : title.toList ≠ [] := List.ne_nil_of_length_pos (by omega)
  have hle : sqlLength title.toList ≤ 200 := by
    have hprefix := sqlLength_le title.toList
    omega
  unfold TitleCheck
  rw [sqlTrim_of_ends first last, one_le_sqlLength hne]
  exact and_iff_left hle

/-- `creationDigest` stands for the digested request; generated tasks have none. -/
structure TaskRow extends TaskColumns where
  creationDigest : Option TaskCreate
  deletedAt : Option Int
deriving DecidableEq

structure RecurrenceRow where
  id : UUID
  userId : UUID
  clientRequestId : UUID
  creationDigest : RecurrenceCreate
  values : RecurrenceValues
  timezone : String
  version : Nat
  createdAt : Int
  updatedAt : Int
  deletedAt : Option Int
deriving DecidableEq

/-- `FixedEventCreate.valid_window` with the title contract. The years are not
checked here. -/
def EventValid (title : String) (start stop : Int) : Prop :=
  TitleValid title ∧ start < stop ∧ start % minute = 0 ∧ stop % minute = 0

instance (title : String) (start stop : Int) : Decidable (EventValid title start stop) :=
  inferInstanceAs (Decidable (_ ∧ _))

structure FixedEventCreate where
  title : String
  start : Int
  stop : Int
  eventValid : EventValid title start stop
deriving DecidableEq

/-- `fixed_events`, and the `FixedEventRecord` read from a row. -/
structure FixedEventRow extends FixedEventCreate where
  id : UUID
  userId : UUID
  version : Nat
  createdAt : Int
  updatedAt : Int
deriving DecidableEq

structure ScheduleRow where
  id : UUID
  userId : UUID
  horizon : TimeWindow
  timezone : String
  version : Nat
  currentRevision : Nat
  createdAt : Int
  updatedAt : Int
deriving DecidableEq

structure VersionRow where
  scheduleId : UUID
  userId : UUID
  revision : Nat
  state : SavedState
  createdAt : Int
deriving DecidableEq

/-- The request a `command_digest` was taken of. Distinct requests are taken to
have distinct digests. -/
inductive CommandDigest
  | create (data : ScheduleCreate)
  | replace (scheduleId : UUID) (data : ScheduleReplace)
  | travel (direction : Direction) (scheduleId : UUID) (data : HistoryCommand)
deriving DecidableEq

structure CommandRow where
  userId : UUID
  clientRequestId : UUID
  scheduleId : UUID
  requestDigest : CommandDigest
  appliedVersion : Nat
deriving DecidableEq

structure AllocationRow where
  userId : UUID
  taskId : UUID
  scheduleId : UUID
deriving DecidableEq

structure Store where
  users : Table UserRow.id
  preferences : Table PreferenceRow.userId
  tasks : Table fun row : TaskRow => row.id
  recurrences : Table RecurrenceRow.id
  events : Table FixedEventRow.id
  schedules : Table ScheduleRow.id
  versions : Table fun row : VersionRow => (row.scheduleId, row.revision)
  commands : Table fun row : CommandRow => (row.userId, row.clientRequestId)
  allocations : Table fun row : AllocationRow => (row.userId, row.taskId)

/-- The store after the migrations. -/
def Store.empty : Store :=
  ⟨.empty, .empty, .empty, .empty, .empty, .empty, .empty, .empty, .empty⟩

/-- A primary key conflict is an error of the driver. -/
def insertRow {κ α : Type} [DecidableEq κ] {key : α → κ} (table : Table key) (row : α) :
    Except PyError (Table key) :=
  match table.insert? row with
  | some table => .ok table
  | none => .error .database

theorem insertRow_ok {κ α : Type} [DecidableEq κ] {key : α → κ} {table table' : Table key}
    {row : α} : insertRow table row = .ok table' ↔ table.insert? row = some table' := by
  unfold insertRow
  split <;> simp_all

/-- Several rows in one statement or transaction. -/
def insertRows {κ α : Type} [DecidableEq κ] {key : α → κ} (table : Table key) (rows : List α) :
    Except PyError (Table key) :=
  match table.insertAll? rows with
  | some table => .ok table
  | none => .error .database

theorem insertRows_ok {κ α : Type} [DecidableEq κ] {key : α → κ} {table table' : Table key}
    {rows : List α} : insertRows table rows = .ok table' ↔ table.insertAll? rows = some table' := by
  unfold insertRows
  split <;> simp_all

/-- `GREATEST(clock_timestamp(), updated_at)`. -/
def greatest (stamp updatedAt : Int) : Int := max stamp updatedAt

end SmartPlanner
