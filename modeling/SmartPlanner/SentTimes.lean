import SmartPlanner.Store
import SmartPlanner.Timestamps

/-!
Datetimes as clients send them, with the UTC offset they are written in, on their
way to the store. The conversion to UTC is written three times: in `TaskTimes`,
in `TimeWindow` and in `encode` of `sqlite_store.py`.
-/

namespace SmartPlanner

open Outcome

/-- An aware `datetime`: its wall clock as the microseconds since the epoch that
a UTC clock of this reading would show, and its UTC offset in microseconds. -/
structure Datetime where
  wall : Int
  offset : Int
  wallYears : InYears wall
  offsetBounded : -86400000000 < offset ∧ offset < 86400000000
deriving DecidableEq

namespace Datetime

def instant (value : Datetime) : Int := value.wall - value.offset

/-- `value.astimezone(timezone.utc)`. -/
def astimezoneUtc (value : Datetime) : Except PyError Int :=
  if InYears value.instant then .ok value.instant else .error .overflow

/-- `value.second or value.microsecond`. -/
def HasSeconds (value : Datetime) : Prop := value.wall % minute ≠ 0

instance (value : Datetime) : Decidable value.HasSeconds :=
  inferInstanceAs (Decidable (_ ≠ _))

end Datetime

/-- `encode` of `sqlite_store.py`, on a datetime. -/
def encode (value : Datetime) : Except PyError (List Char) := do
  let utc ← value.astimezoneUtc
  return isoformat utc

/-- `TaskTimes.normalize_to_utc`. -/
def TaskTimes.normalizeToUtc : Option Datetime → Except PyError (Option Int)
  | none => .ok none
  | some value => some <$> value.astimezoneUtc

/-- `TimeWindow.minute_in_utc`, the only copy that handles the range. -/
def TimeWindow.minuteInUtc (value : Datetime) : Except PyError Int :=
  match value.astimezoneUtc with
  | .error .overflow | .error .value => .error .validation
  | .error error => .error error
  | .ok utc => do
      raiseIf (¬ (SupportedYear utc ∧ utc % minute = 0)) .validation
      return utc

/-! The requests as sent. A text stands for its stripped value, and a field of
another type never reaches the conversion. -/

structure TaskCreate.Sent where
  clientRequestId : UUID
  title : String
  description : String
  durationMinutes : Int
  priority : Int
  splittable : Bool
  preferredPeriod : Period
  earliestStart : Option Datetime
  deadline : Option Datetime

/-- The times are validated before the other fields, and an exception that is
not a `ValueError` leaves the validation at once. -/
def TaskCreate.modelValidate (sent : TaskCreate.Sent) : Except PyError TaskCreate := do
  let earliestStart ← TaskTimes.normalizeToUtc sent.earliestStart
  let deadline ← TaskTimes.normalizeToUtc sent.deadline
  let fields : TaskFields := { sent with earliestStart, deadline }
  if valid : fields.Valid then return ⟨fields, sent.clientRequestId, valid⟩
  else .error .validation

structure TaskPatch.Sent where
  expectedVersion : Nat
  title : Option String
  description : Option String
  durationMinutes : Option Int
  priority : Option Int
  splittable : Option Bool
  preferredPeriod : Option Period
  status : Option Status
  earliestStart : Option (Option Datetime)
  deadline : Option (Option Datetime)

/-- An unset time is not validated. -/
def TaskPatch.normalizeSet : Option (Option Datetime) → Except PyError (Option (Option Int))
  | none => .ok none
  | some value => some <$> TaskTimes.normalizeToUtc value

def TaskPatch.modelValidate (sent : TaskPatch.Sent) : Except PyError TaskPatch := do
  let earliestStart ← normalizeSet sent.earliestStart
  let deadline ← normalizeSet sent.deadline
  if valid : VersionValid sent.expectedVersion ∧
      ((∀ value ∈ sent.title, TitleValid value) ∧
        (∀ value ∈ sent.description, value.length ≤ 2000) ∧
        (∀ value ∈ sent.durationMinutes, 1 ≤ value ∧ value ≤ 10080) ∧
        (∀ value ∈ sent.priority, 1 ≤ value ∧ value ≤ 10)) ∧
      (sent.title.isSome || sent.description.isSome || sent.durationMinutes.isSome ||
        sent.priority.isSome || sent.splittable.isSome || sent.preferredPeriod.isSome ||
        sent.status.isSome || earliestStart.isSome || deadline.isSome) then
    return { sent with
      earliestStart, deadline
      versionValid := valid.1
      valuesValid := valid.2.1
      someChange := valid.2.2 }
  else .error .validation

structure FixedEventCreate.Sent where
  title : String
  start : Datetime
  stop : Datetime
deriving DecidableEq

/-- The contract of `FixedEventCreate`. The times keep the offsets they were sent
with, and the minutes are those of the sent wall clock. -/
def FixedEventCreate.Sent.Valid (sent : FixedEventCreate.Sent) : Prop :=
  TitleValid sent.title ∧ sent.start.instant < sent.stop.instant ∧
  ¬ (sent.start.HasSeconds ∨ sent.stop.HasSeconds)

instance (sent : FixedEventCreate.Sent) : Decidable sent.Valid :=
  inferInstanceAs (Decidable (_ ∧ _))

structure FixedEventReplace.Sent extends FixedEventCreate.Sent where
  expectedVersion : Nat
deriving DecidableEq

def FixedEventReplace.Sent.Valid (sent : FixedEventReplace.Sent) : Prop :=
  sent.toSent.Valid ∧ VersionValid sent.expectedVersion

instance (sent : FixedEventReplace.Sent) : Decidable sent.Valid :=
  inferInstanceAs (Decidable (_ ∧ _))

/-! The times of a request, and the texts its path writes for them: the contract
is validated first, and `execute` encodes the validated values. -/

def TaskCreate.Sent.times (sent : TaskCreate.Sent) : List Datetime :=
  sent.earliestStart.toList ++ sent.deadline.toList

def TaskCreate.stored (sent : TaskCreate.Sent) : Except PyError (List (List Char)) := do
  let task ← TaskCreate.modelValidate sent
  (task.earliestStart.toList ++ task.deadline.toList).mapM encodeUtc

def TaskPatch.Sent.times (sent : TaskPatch.Sent) : List Datetime :=
  sent.earliestStart.join.toList ++ sent.deadline.join.toList

def TaskPatch.stored (sent : TaskPatch.Sent) : Except PyError (List (List Char)) := do
  let patch ← TaskPatch.modelValidate sent
  (patch.earliestStart.join.toList ++ patch.deadline.join.toList).mapM encodeUtc

def FixedEventCreate.Sent.times (sent : FixedEventCreate.Sent) : List Datetime :=
  [sent.start, sent.stop]

def FixedEventCreate.stored (sent : FixedEventCreate.Sent) :
    Except PyError (List (List Char)) := do
  raiseIf (¬ sent.Valid) .validation
  sent.times.mapM encode

def FixedEventReplace.stored (sent : FixedEventReplace.Sent) :
    Except PyError (List (List Char)) := do
  raiseIf (¬ sent.Valid) .validation
  sent.times.mapM encode

/-- A `ValueError`, as a `ValidationError` is, or an `AppError`. -/
def PyError.Refuses : PyError → Prop
  | .app _ | .validation | .value | .staleTaskVersion => True
  | .database | .overflow => False

/-- Every time is stored as the text of its instant, or the request is refused. -/
def PreservedOrRefused (times : List Datetime) :
    Except PyError (List (List Char)) → Prop
  | .ok texts => (∀ time ∈ times, InYears time.instant) ∧
      texts = times.map fun time => isoformat time.instant
  | .error error => error.Refuses

/-- A text stands for one instant only. -/
theorem isoformat_injective {s t : Int} (hs : InYears s) (ht : InYears t)
    (h : isoformat s = isoformat t) : s = t := by
  have forth := isoformat_lt hs ht
  have back := isoformat_lt ht hs
  rw [h] at forth back
  have := forth.not.mp (lt_irrefl _)
  have := back.not.mp (lt_irrefl _)
  omega

section Conversion
variable {value : Datetime}

theorem astimezoneUtc_years (h : InYears value.instant) :
    value.astimezoneUtc = .ok value.instant := if_pos h

theorem astimezoneUtc_overflow (h : ¬ InYears value.instant) :
    value.astimezoneUtc = .error .overflow := if_neg h

/-- The window's own copy of the conversion never lets the overflow out. -/
theorem TimeWindow.minuteInUtc_refuses (value : Datetime) :
    Raises PyError.Refuses (TimeWindow.minuteInUtc value) := by
  unfold TimeWindow.minuteInUtc
  by_cases years : InYears value.instant
  · rw [astimezoneUtc_years years]
    exact (raises_raiseIf trivial).bind fun _ _ => raises_ok _
  · rw [astimezoneUtc_overflow years]
    exact raises_error trivial

theorem encode_eq (value : Datetime) : encode value = encodeUtc value.instant := by
  unfold encode encodeUtc Datetime.astimezoneUtc
  split <;> rfl

/-- The instants of the times that are present. -/
theorem normalizeToUtc_years {time : Option Datetime} (h : ∀ t ∈ time.toList, InYears t.instant) :
    TaskTimes.normalizeToUtc time = .ok (time.map (·.instant)) := by
  cases time with
  | none => rfl
  | some t =>
    have years := h t (List.mem_singleton_self t)
    change some <$> t.astimezoneUtc = _
    rw [astimezoneUtc_years years]
    rfl

theorem normalizeToUtc_overflow {time : Option Datetime}
    (h : ¬ ∀ t ∈ time.toList, InYears t.instant) :
    TaskTimes.normalizeToUtc time = .error .overflow := by
  cases time with
  | none => simp at h
  | some t =>
    have years : ¬ InYears t.instant := by simpa using h
    change some <$> t.astimezoneUtc = _
    rw [astimezoneUtc_overflow years]
    rfl

theorem normalizeSet_years {time : Option (Option Datetime)}
    (h : ∀ t ∈ time.join.toList, InYears t.instant) :
    TaskPatch.normalizeSet time = .ok (time.map (Option.map (·.instant))) := by
  cases time with
  | none => rfl
  | some time =>
    change some <$> TaskTimes.normalizeToUtc time = _
    exact congrArg (some <$> ·) (normalizeToUtc_years h)

theorem normalizeSet_overflow {time : Option (Option Datetime)}
    (h : ¬ ∀ t ∈ time.join.toList, InYears t.instant) :
    TaskPatch.normalizeSet time = .error .overflow := by
  cases time with
  | none => simp at h
  | some time =>
    change some <$> TaskTimes.normalizeToUtc time = _
    exact congrArg (some <$> ·) (normalizeToUtc_overflow h)

end Conversion

/-- Of two times, an instant outside the years is in the first or only in the
second. -/
theorem not_forall_mem_append {xs ys : List Datetime}
    (h : ¬ ∀ t ∈ xs ++ ys, InYears t.instant) :
    (¬ ∀ t ∈ xs, InYears t.instant) ∨
      (∀ t ∈ xs, InYears t.instant) ∧ ¬ ∀ t ∈ ys, InYears t.instant := by
  rw [List.forall_mem_append] at h
  by_cases first : ∀ t ∈ xs, InYears t.instant
  · exact Or.inr ⟨first, fun rest => h ⟨first, rest⟩⟩
  · exact Or.inl first

/-- The texts of times whose instants are all in range. -/
theorem mapM_encodeUtc_instants {times : List Datetime} (h : ∀ t ∈ times, InYears t.instant) :
    (times.map (·.instant)).mapM encodeUtc =
      .ok (times.map fun time => isoformat time.instant) := by
  rw [mapM_encodeUtc (List.forall_mem_map.mpr h), List.map_map]
  rfl

theorem mapM_encode (times : List Datetime) :
    times.mapM encode = (times.map (·.instant)).mapM encodeUtc := by
  rw [List.mapM_map]
  exact congrArg (fun f => times.mapM f) (funext encode_eq)

theorem mapM_encode_ok {times : List Datetime} {texts : List (List Char)} :
    times.mapM encode = .ok texts ↔ (∀ time ∈ times, InYears time.instant) ∧
      texts = times.map fun time => isoformat time.instant := by
  rw [mapM_encode]
  by_cases years : ∀ time ∈ times, InYears time.instant
  · rw [mapM_encodeUtc_instants years, Except.ok.injEq]
    exact ⟨fun h => ⟨years, h.symm⟩, fun h => h.2.symm⟩
  · rw [mapM_encodeUtc_overflow fun h => years (List.forall_mem_map.mp h)]
    exact ⟨(fun h => nomatch h), fun h => absurd h.1 years⟩

/-- A contract that converts its times: what it accepts holds their instants, and
an instant out of range leaves it. -/
theorem storedTask_iff {α : Type} {times : List Datetime} {validated : Except PyError α}
    {instants : α → List Int}
    (accepts : (∀ time ∈ times, InYears time.instant) →
      (∃ data, validated = .ok data ∧ instants data = times.map (·.instant)) ∨
        validated = .error .validation)
    (escapes : (¬ ∀ time ∈ times, InYears time.instant) → validated = .error .overflow) :
    PreservedOrRefused times (validated >>= fun data => (instants data).mapM encodeUtc) ↔
      ∀ time ∈ times, InYears time.instant := by
  by_cases years : ∀ time ∈ times, InYears time.instant
  · refine iff_of_true ?_ years
    rcases accepts years with ⟨data, hdata, hinstants⟩ | refused
    · rw [hdata, ok_bind, hinstants, mapM_encodeUtc_instants years]
      exact ⟨years, rfl⟩
    · rw [refused]
      trivial
  · refine iff_of_false ?_ years
    rw [escapes years]
    exact id

namespace TaskCreate
variable {sent : TaskCreate.Sent}

theorem modelValidate_years (h : ∀ time ∈ sent.times, InYears time.instant) :
    (∃ task, modelValidate sent = .ok task ∧
      task.earliestStart = sent.earliestStart.map (·.instant) ∧
      task.deadline = sent.deadline.map (·.instant)) ∨
    modelValidate sent = .error .validation := by
  have both := List.forall_mem_append.mp h
  unfold modelValidate
  rw [normalizeToUtc_years both.1, normalizeToUtc_years both.2, ok_bind, ok_bind]
  simp only
  split
  · exact Or.inl ⟨_, rfl, rfl, rfl⟩
  · exact Or.inr rfl

/-- An instant out of range leaves the validation, whatever the other fields. -/
theorem modelValidate_overflow (h : ¬ ∀ time ∈ sent.times, InYears time.instant) :
    modelValidate sent = .error .overflow := by
  unfold modelValidate
  rcases not_forall_mem_append h with first | ⟨first, second⟩
  · rw [normalizeToUtc_overflow first]
    rfl
  · rw [normalizeToUtc_years first, normalizeToUtc_overflow second]
    rfl

theorem preservedOrRefused_iff (sent : TaskCreate.Sent) :
    PreservedOrRefused sent.times (stored sent) ↔ ∀ time ∈ sent.times, InYears time.instant := by
  refine storedTask_iff (fun years => ?_) modelValidate_overflow
  refine (modelValidate_years years).imp_left fun ⟨task, htask, hearliest, hdeadline⟩ => ?_
  refine ⟨task, htask, ?_⟩
  rw [hearliest, hdeadline, Option.toList_map, Option.toList_map, ← List.map_append]
  rfl

end TaskCreate

namespace TaskPatch
variable {sent : TaskPatch.Sent}

theorem modelValidate_years (h : ∀ time ∈ sent.times, InYears time.instant) :
    (∃ patch, modelValidate sent = .ok patch ∧
      patch.earliestStart = sent.earliestStart.map (Option.map (·.instant)) ∧
      patch.deadline = sent.deadline.map (Option.map (·.instant))) ∨
    modelValidate sent = .error .validation := by
  have both := List.forall_mem_append.mp h
  unfold modelValidate
  rw [normalizeSet_years both.1, normalizeSet_years both.2, ok_bind, ok_bind]
  split
  · exact Or.inl ⟨_, rfl, rfl, rfl⟩
  · exact Or.inr rfl

theorem modelValidate_overflow (h : ¬ ∀ time ∈ sent.times, InYears time.instant) :
    modelValidate sent = .error .overflow := by
  unfold modelValidate
  rcases not_forall_mem_append h with first | ⟨first, second⟩
  · rw [normalizeSet_overflow first]
    rfl
  · rw [normalizeSet_years first, normalizeSet_overflow second]
    rfl

theorem join_instants (time : Option (Option Datetime)) :
    (time.map (Option.map (·.instant))).join.toList = time.join.toList.map (·.instant) := by
  rcases time with _ | _ | t <;> rfl

theorem preservedOrRefused_iff (sent : TaskPatch.Sent) :
    PreservedOrRefused sent.times (stored sent) ↔ ∀ time ∈ sent.times, InYears time.instant := by
  refine storedTask_iff (fun years => ?_) modelValidate_overflow
  refine (modelValidate_years years).imp_left fun ⟨patch, hpatch, hearliest, hdeadline⟩ => ?_
  refine ⟨patch, hpatch, ?_⟩
  rw [hearliest, hdeadline, join_instants, join_instants, ← List.map_append]
  rfl

end TaskPatch

/-- The contract of an event does not convert; `encode` does, after it passed. -/
theorem storedEvent_iff (times : List Datetime) (valid : Prop) [Decidable valid] :
    PreservedOrRefused times (raiseIf (¬ valid) .validation >>= fun _ => times.mapM encode) ↔
      (valid → ∀ time ∈ times, InYears time.instant) := by
  unfold raiseIf
  by_cases passed : valid
  · rw [if_neg (not_not.mpr passed), ok_bind, mapM_encode]
    by_cases years : ∀ time ∈ times, InYears time.instant
    · rw [mapM_encodeUtc_instants years]
      exact iff_of_true ⟨years, rfl⟩ fun _ => years
    · rw [mapM_encodeUtc_overflow fun h => years (List.forall_mem_map.mp h)]
      exact iff_of_false id fun h => years (h passed)
  · rw [if_pos passed]
    exact iff_of_true trivial fun h => absurd h passed

/-- The path of a request keeps every instant or refuses the request exactly when
no instant that it converts leaves the years of a datetime: a task's times are
converted first, an event's only once its contract has passed. -/
theorem sentTimes_preserved_iff (task : TaskCreate.Sent) (patch : TaskPatch.Sent)
    (event : FixedEventCreate.Sent) (replacement : FixedEventReplace.Sent) :
    (PreservedOrRefused task.times (TaskCreate.stored task) ↔
      ∀ time ∈ task.times, InYears time.instant) ∧
    (PreservedOrRefused patch.times (TaskPatch.stored patch) ↔
      ∀ time ∈ patch.times, InYears time.instant) ∧
    (PreservedOrRefused event.times (FixedEventCreate.stored event) ↔
      (event.Valid → ∀ time ∈ event.times, InYears time.instant)) ∧
    (PreservedOrRefused replacement.times (FixedEventReplace.stored replacement) ↔
      (replacement.Valid → ∀ time ∈ replacement.times, InYears time.instant)) :=
  ⟨TaskCreate.preservedOrRefused_iff task, TaskPatch.preservedOrRefused_iff patch,
    storedEvent_iff event.times event.Valid, storedEvent_iff replacement.times replacement.Valid⟩

theorem Datetime.utc_bounded : -86400000000 < (0 : Int) ∧ (0 : Int) < 86400000000 := by
  decide

/-- `0001-01-01T00:00:00+01:00`, an hour before the first instant of UTC. -/
def firstHour : Datetime := ⟨-62135596800000000, 3600000000, by decide, by decide⟩

def firstHourTask : TaskCreate.Sent where
  clientRequestId := 1
  title := "essay"
  description := ""
  durationMinutes := 60
  priority := 5
  splittable := false
  preferredPeriod := .any
  earliestStart := some firstHour
  deadline := none

/-- Lasting until an hour later. -/
def firstHourEvent : FixedEventCreate.Sent :=
  ⟨"dawn", firstHour, ⟨-62135593200000000, 0, by decide, Datetime.utc_bounded⟩⟩

theorem firstHour_escapes :
    TaskCreate.stored firstHourTask = .error .overflow ∧
    ¬ PreservedOrRefused firstHourTask.times (TaskCreate.stored firstHourTask) ∧
    FixedEventCreate.stored firstHourEvent = .error .overflow ∧
    ¬ PreservedOrRefused firstHourEvent.times (FixedEventCreate.stored firstHourEvent) := by
  have task : TaskCreate.stored firstHourTask = .error .overflow := by decide
  have event : FixedEventCreate.stored firstHourEvent = .error .overflow := by decide
  rw [task, event]
  exact ⟨rfl, id, rfl, id⟩

end SmartPlanner
