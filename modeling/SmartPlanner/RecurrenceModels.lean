import SmartPlanner.Models

/-!
`recurrence_models.py` and the expansion of a pattern in `recurrence.py`. Dates
are proleptic ordinals.
-/

namespace SmartPlanner

/-- `WEEKDAYS`, in calendar order. -/
inductive Weekday
  | mon | tue | wed | thu | fri | sat | sun
deriving DecidableEq, Repr

def weekdays : List Weekday := [.mon, .tue, .wed, .thu, .fri, .sat, .sun]

inductive Frequency
  | daily | weekdays | weekly
deriving DecidableEq, Repr

/-- `calendar_day`: 2000-01-01 to 2100-12-31. -/
def CalendarDay (day : Int) : Prop := 730120 ≤ day ∧ day ≤ 767009

instance (day : Int) : Decidable (CalendarDay day) :=
  inferInstanceAs (Decidable (_ ∧ _))

structure RecurrenceValues where
  title : String
  description : String
  durationMinutes : Int
  priority : Int
  splittable : Bool
  preferredPeriod : Period
  frequency : Frequency
  weekdays : List Weekday
  startDate : Int
  endDate : Option Int
  active : Bool
  valid : TitleValid title ∧ description.length ≤ 2000 ∧
    (1 ≤ durationMinutes ∧ durationMinutes ≤ 1440) ∧ (1 ≤ priority ∧ priority ≤ 10) ∧
    weekdays.Sublist SmartPlanner.weekdays ∧ (frequency = .weekdays ↔ weekdays ≠ []) ∧
    CalendarDay startDate ∧ ∀ day ∈ endDate, CalendarDay day ∧ startDate ≤ day
deriving DecidableEq

structure RecurrenceCreate extends RecurrenceValues where
  clientRequestId : UUID
deriving DecidableEq

structure RecurrenceRecord extends RecurrenceCreate where
  id : UUID
  userId : UUID
  timezone : String
  version : Nat
  createdAt : Int
  updatedAt : Int
  versionValid : VersionValid version

structure RecurrenceReplace where
  expectedVersion : Nat
  values : RecurrenceValues
  versionValid : VersionValid expectedVersion

structure OccurrenceRequest where
  expectedVersion : Nat
  startDate : Int
  days : Nat
  valid : VersionValid expectedVersion ∧ (730120 ≤ startDate ∧ startDate ≤ 767002) ∧
    (days = 1 ∨ days = 7)

structure OccurrenceResult where
  recurrenceId : UUID
  recurrenceVersion : Nat
  tasks : List TaskRecord
  createdCount : Nat
  deletedDates : List Int
  skippedPastDates : List Int

namespace AppError

def nonexistentOccurrenceDay : AppError :=
  ⟨422, .nonexistentOccurrenceDay, "این روز در منطقهٔ زمانی فعالیت وجود ندارد؛ محدوده را اصلاح کنید."⟩

def occurrenceTooLong : AppError :=
  ⟨422, .occurrenceTooLong, "مدت فعالیت از طول واقعی یکی از روزهای انتخاب‌شده بیشتر است."⟩

end AppError

/-- `date.weekday()`: zero is Monday. -/
def weekdayIndex (day : Int) : Int := (day + 6) % 7

def weekdayOf (day : Int) : Weekday := weekdays.getD (weekdayIndex day).toNat .mon

/-- Whether a day belongs to the pattern: the body of the loop of
`occurrence_dates`. -/
def RecurrenceValues.selects (values : RecurrenceValues) (day : Int) : Bool :=
  !(day < values.startDate || values.endDate.any (· < day)) &&
  !(values.frequency = .weekly && weekdayIndex day ≠ weekdayIndex values.startDate) &&
  !(values.frequency = .weekdays && weekdayOf day ∉ values.weekdays)

def occurrenceDates (values : RecurrenceValues) (start : Int) (days : Nat) : List Int :=
  if values.active then
    ((List.range days).map fun (offset : Nat) => start + offset).filter values.selects
  else []

/-- `occurrence_window`, over the loaded zone. -/
def occurrenceWindow (day : Int) (zone : Zone) (durationMinutes : Int) :
    Except PyError (Int × Int) :=
  let start := zone.dayStart day
  let stop := zone.dayStart (day + 1)
  if stop ≤ start ∨ zone.localDate start ≠ day then
    .error (.app .nonexistentOccurrenceDay)
  else if stop - start < durationMinutes * minute then
    .error (.app .occurrenceTooLong)
  else .ok (start, stop)

end SmartPlanner
