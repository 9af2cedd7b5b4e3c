import SmartPlanner.Calendar
import SmartPlanner.Errors

/-!
`models.py` and the preference contracts of `accounts.py`. A validated contract
is a structure whose `valid` field is the conjunction of its validators, so an
invalid value cannot be built. Texts stand for their value after
`str_strip_whitespace`; datetimes stand for their value after `astimezone(utc)`.
-/

namespace SmartPlanner

/-- Upper bound of `Version`. -/
def versionLimit : Nat := 2147483647

def VersionValid (version : Nat) : Prop := 1 ≤ version ∧ version ≤ versionLimit

instance (version : Nat) : Decidable (VersionValid version) :=
  inferInstanceAs (Decidable (_ ∧ _))

theorem versionValid_one : VersionValid 1 := by decide

def TitleValid (title : String) : Prop := 1 ≤ title.length ∧ title.length ≤ 200

instance (title : String) : Decidable (TitleValid title) :=
  inferInstanceAs (Decidable (_ ∧ _))

inductive Period
  | any | morning | afternoon | evening
deriving DecidableEq, Repr

inductive Status
  | pending | completed | cancelled
deriving DecidableEq, Repr

/-- What a client chooses about a task: the fields of `TaskCreate` other than
its request id. -/
structure TaskFields where
  title : String
  description : String
  durationMinutes : Int
  priority : Int
  splittable : Bool
  preferredPeriod : Period
  earliestStart : Option Int
  deadline : Option Int
deriving DecidableEq, Repr

/-- `TaskCreate.validate_time_window`. -/
def TaskFields.WindowFits (task : TaskFields) : Prop :=
  ∀ earliest ∈ task.earliestStart, ∀ deadline ∈ task.deadline,
    task.durationMinutes * minute ≤ deadline - earliest

instance (task : TaskFields) : Decidable task.WindowFits := by
  unfold TaskFields.WindowFits
  infer_instance

def TaskFields.Valid (task : TaskFields) : Prop :=
  TitleValid task.title ∧ task.description.length ≤ 2000 ∧
  (1 ≤ task.durationMinutes ∧ task.durationMinutes ≤ 10080) ∧
  (1 ≤ task.priority ∧ task.priority ≤ 10) ∧ task.WindowFits

instance (task : TaskFields) : Decidable task.Valid :=
  inferInstanceAs (Decidable (_ ∧ _))

structure TaskCreate extends TaskFields where
  clientRequestId : UUID
  valid : toTaskFields.Valid
deriving DecidableEq

/-- The columns `TASK_COLUMNS` of a stored task, not yet validated. -/
structure TaskColumns extends TaskFields where
  id : UUID
  userId : UUID
  clientRequestId : UUID
  status : Status
  version : Nat
  createdAt : Int
  updatedAt : Int
  recurrenceId : Option UUID
  occurrenceDate : Option Int
deriving DecidableEq, Repr

def TaskColumns.Valid (task : TaskColumns) : Prop :=
  task.toTaskFields.Valid ∧ VersionValid task.version ∧
  task.createdAt ≤ task.updatedAt ∧
  (task.recurrenceId.isNone = task.occurrenceDate.isNone)

instance (task : TaskColumns) : Decidable task.Valid :=
  inferInstanceAs (Decidable (_ ∧ _))

structure TaskRecord extends TaskColumns where
  valid : toTaskColumns.Valid
deriving DecidableEq

theorem TaskRecord.eq_of_columns {a b : TaskRecord} (h : a.toTaskColumns = b.toTaskColumns) :
    a = b := by
  cases a
  cases b
  simpa using h

/-- `TaskRecord.model_validate(row)`. -/
def TaskRecord.modelValidate (row : TaskColumns) : Except PyError TaskRecord :=
  if h : row.Valid then .ok ⟨row, h⟩ else .error .validation

theorem TaskRecord.modelValidate_ok {row : TaskColumns} {task : TaskRecord} :
    TaskRecord.modelValidate row = .ok task ↔ task.toTaskColumns = row := by
  unfold TaskRecord.modelValidate
  constructor
  · intro h
    split at h
    · cases h
      rfl
    · contradiction
  · rintro rfl
    rw [dif_pos task.valid]

theorem TaskRecord.duration_pos (task : TaskRecord) : 1 ≤ task.durationMinutes :=
  task.valid.1.2.2.1.1

/-- `TaskPatch`: the explicitly set fields. The nullable fields distinguish an
explicit null from an unset field. -/
structure TaskPatch where
  expectedVersion : Nat
  title : Option String
  description : Option String
  durationMinutes : Option Int
  priority : Option Int
  splittable : Option Bool
  preferredPeriod : Option Period
  status : Option Status
  earliestStart : Option (Option Int)
  deadline : Option (Option Int)
  versionValid : VersionValid expectedVersion
  valuesValid :
    (∀ value ∈ title, TitleValid value) ∧
    (∀ value ∈ description, value.length ≤ 2000) ∧
    (∀ value ∈ durationMinutes, 1 ≤ value ∧ value ≤ 10080) ∧
    (∀ value ∈ priority, 1 ≤ value ∧ value ≤ 10)
  someChange :
    title.isSome || description.isSome || durationMinutes.isSome || priority.isSome ||
      splittable.isSome || preferredPeriod.isSome || status.isSome ||
      earliestStart.isSome || deadline.isSome

inductive DayPart
  | morning | afternoon | evening
deriving DecidableEq, Repr

inductive Chronotype
  | morning | neutral | evening
deriving DecidableEq, Repr

inductive Flexibility
  | low | medium | high
deriving DecidableEq, Repr

inductive Workload
  | light | medium | intense
deriving DecidableEq, Repr

/-- `period in self.period_prefix`: the periods that have a prefix table. -/
def Period.part? : Period → Option DayPart
  | .any => none
  | .morning => some .morning
  | .afternoon => some .afternoon
  | .evening => some .evening

def Chronotype.part? : Chronotype → Option DayPart
  | .morning => some .morning
  | .neutral => none
  | .evening => some .evening

/-- `PreferenceValues`; the activity hours are minutes of the local day. -/
structure PreferenceValues where
  chronotype : Chronotype
  focusBlockMinutes : Int
  breakMinutes : Int
  flexibility : Flexibility
  workload : Workload
  deepWorkPeriod : DayPart
  activityStart : Int
  activityEnd : Int
  valid : focusBlockMinutes ∈ [25, 45, 60, 90] ∧
    (0 ≤ breakMinutes ∧ breakMinutes ≤ 60) ∧
    (0 ≤ activityStart ∧ activityStart < activityEnd ∧ activityEnd < 1440)
deriving DecidableEq

/-- The column defaults of `user_preferences`, which are the contract's own. -/
def PreferenceValues.default : PreferenceValues where
  chronotype := .neutral
  focusBlockMinutes := 45
  breakMinutes := 10
  flexibility := .medium
  workload := .medium
  deepWorkPeriod := .afternoon
  activityStart := 540
  activityEnd := 1080
  valid := by decide

theorem PreferenceValues.focus_pos (preferences : PreferenceValues) :
    1 ≤ preferences.focusBlockMinutes := by
  have h := preferences.valid.1
  simp only [List.mem_cons, List.not_mem_nil, or_false] at h
  omega

structure PreferenceRecord extends PreferenceValues where
  userId : UUID
  version : Nat
  updatedAt : Int
  versionValid : VersionValid version

structure PreferencePut where
  expectedVersion : Nat
  values : PreferenceValues
  versionValid : VersionValid expectedVersion

end SmartPlanner
