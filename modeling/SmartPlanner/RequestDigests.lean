import SmartPlanner.ContractJson
import SmartPlanner.Store

/-!
The texts that `creation_digest`, `RecurrenceRepository.create` and
`command_digest` hash. Receipts and creation digests stand for these texts; two
requests have one text exactly when they are the same request, in whichever order
a client lists its members.
-/

namespace SmartPlanner

open Json

/-- `json.dumps(value, sort_keys=True, separators=(",", ":"))` -/
def digestText (value : Value) : List Char := write ⟨true, false⟩ (sortKeys value)

def Direction.text : Direction → String
  | .undo => "undo"
  | .redo => "redo"

def CommandDigest.operation : CommandDigest → String
  | .create _ => "create"
  | .replace .. => "replace"
  | .travel direction .. => direction.text

def CommandDigest.target : CommandDigest → Option UUID
  | .create _ => none
  | .replace scheduleId _ => some scheduleId
  | .travel _ scheduleId _ => some scheduleId

def CommandDigest.request : CommandDigest → Value
  | .create data => data.modelDump
  | .replace _ data => data.modelDump
  | .travel _ _ data => data.modelDump

/-- The value that `command_digest` hashes. -/
def CommandDigest.value (digest : CommandDigest) : Value := record [
  ("operation", textValue digest.operation),
  ("schedule_id", digest.target.elim .null uuidValue),
  ("request", digest.request)]

/-- The times of a task that its contract accepts. -/
def TaskCreate.TimesInYears (task : TaskCreate) : Prop :=
  (∀ t ∈ task.earliestStart, InYears t) ∧ ∀ t ∈ task.deadline, InYears t

instance (task : TaskCreate) : Decidable task.TimesInYears := inferInstanceAs (Decidable (_ ∧ _))

theorem TaskCreate.modelDump_valid (task : TaskCreate) : Valid task.modelDump :=
  valid_record (by simp) (by
    simp only [List.forall_mem_cons, valid_uuidValue, valid_textValue, Valid, List.not_mem_nil,
      false_imp_iff, implies_true, and_true]
    exact ⟨optional_valid valid_timeValue _, optional_valid valid_timeValue _⟩)

theorem TaskCreate.modelDump_injective {a b : TaskCreate} (ha : a.TimesInYears)
    (hb : b.TimesInYears) (h : sortKeys a.modelDump = sortKeys b.modelDump) : a = b := by
  have fields := record_injective h rfl (by simp)
  simp only [List.map_cons, List.map_nil, List.cons.injEq, sortKeys_uuidValue, sortKeys_textValue,
    sortKeys_int, sortKeys_bool, Value.int.injEq, Value.bool.injEq, and_true] at fields
  obtain ⟨hstart, hdeadline, hid, htitle, hdescription, hduration, hpriority, hsplittable,
    hperiod⟩ := fields
  have start := optionalTime_injective ha.1 hb.1 hstart
  have deadline := optionalTime_injective ha.2 hb.2 hdeadline
  have id := uuidValue_injective hid
  have title := textValue_injective htitle
  have description := textValue_injective hdescription
  have period := Period.text_injective (textValue_injective hperiod)
  obtain ⟨⟨_, _, _, _, _, _, _, _⟩, _, _⟩ := a
  obtain ⟨⟨_, _, _, _, _, _, _, _⟩, _, _⟩ := b
  dsimp only at start deadline id title description hduration hpriority hsplittable period
  subst start deadline id title description hduration hpriority hsplittable period
  rfl

theorem RecurrenceCreate.canonical : Canonical RecurrenceCreate.modelDump where
  valid data := valid_record (by simp) (by
    simp only [List.forall_mem_cons, valid_uuidValue, valid_textValue, valid_dateValue, Valid,
      List.not_mem_nil, false_imp_iff, implies_true, and_true, true_and]
    exact ⟨(textValue_canonical.comp Weekday.text_injective).list.valid _,
      optional_valid valid_dateValue _⟩)
  injective := by
    intro a b h
    have fields := record_injective h rfl (by simp)
    simp only [List.map_cons, List.map_nil, List.cons.injEq, sortKeys_uuidValue,
      sortKeys_textValue, sortKeys_dateValue, sortKeys_int, sortKeys_bool, Value.int.injEq,
      Value.bool.injEq, and_true] at fields
    obtain ⟨htitle, hdescription, hduration, hpriority, hsplittable, hperiod, hfrequency,
      hweekdays, hstart, hend, hactive, hid⟩ := fields
    have calendar : ∀ {day}, CalendarDay day → 0 < day ∧ day ≤ 3652059 := by
      rintro day ⟨first, last⟩
      omega
    obtain ⟨-, -, -, -, -, -, first, last⟩ := a.valid
    obtain ⟨-, -, -, -, -, -, first', last'⟩ := b.valid
    have title := textValue_injective htitle
    have description := textValue_injective hdescription
    have period := Period.text_injective (textValue_injective hperiod)
    have frequency := Frequency.text_injective (textValue_injective hfrequency)
    have days := (textValue_canonical.comp Weekday.text_injective).list.injective hweekdays
    have start := dateValue_injective (calendar first) (calendar first') hstart
    have ending := optionalDate_injective (fun day hday => calendar (last day hday).1)
      (fun day hday => calendar (last' day hday).1) hend
    have id := uuidValue_injective hid
    obtain ⟨⟨_, _, _, _, _, _, _, _, _, _, _, _⟩, _⟩ := a
    obtain ⟨⟨_, _, _, _, _, _, _, _, _, _, _, _⟩, _⟩ := b
    dsimp only at title description hduration hpriority hsplittable period
    dsimp only at frequency days start ending hactive id
    subst title description hduration hpriority hsplittable period
    subst frequency days start ending hactive id
    rfl

theorem Direction.text_injective {a b : Direction} (h : a.text = b.text) : a = b := by
  revert h
  cases a <;> cases b <;> decide

theorem Direction.text_ne_replace (direction : Direction) : direction.text ≠ "replace" := by
  cases direction <;> decide

namespace CommandDigest

theorem request_valid (digest : CommandDigest) : Valid digest.request := by
  cases digest with
  | create data => exact ScheduleCreate.canonical.valid data
  | replace scheduleId data => exact ScheduleReplace.canonical.valid data
  | travel direction scheduleId data => exact HistoryCommand.canonical.valid data

/-- The operation and its target tell the kinds of request apart. -/
theorem canonical : Canonical CommandDigest.value where
  valid digest := valid_record (by simp) (by
    simp only [List.forall_mem_cons, valid_textValue, List.not_mem_nil, false_imp_iff,
      implies_true, and_true, true_and]
    exact ⟨optional_valid valid_uuidValue _, digest.request_valid⟩)
  injective := by
    intro a b h
    have fields := record_injective h rfl (by simp)
    simp only [List.map_cons, List.map_nil, List.cons.injEq, sortKeys_textValue, and_true] at fields
    obtain ⟨hoperation, htarget, hrequest⟩ := fields
    have operation := textValue_injective hoperation
    have target := @optional_injective UUID uuidValue (fun _ => True) (by simp [uuidValue])
      (fun _ _ => uuidValue_injective) _ _ (fun _ _ => trivial) (fun _ _ => trivial) htarget
    cases a with
    | create data =>
        cases b with
        | create data' => exact congrArg create (ScheduleCreate.canonical.injective hrequest)
        | replace => exact absurd target.symm (Option.some_ne_none _)
        | travel => exact absurd target.symm (Option.some_ne_none _)
    | replace scheduleId data =>
        cases b with
        | create => exact absurd target (Option.some_ne_none _)
        | replace scheduleId' data' =>
            rw [Option.some.inj target, ScheduleReplace.canonical.injective hrequest]
        | travel direction => exact absurd operation direction.text_ne_replace.symm
    | travel direction scheduleId data =>
        cases b with
        | create => exact absurd target (Option.some_ne_none _)
        | replace => exact absurd operation direction.text_ne_replace
        | travel direction' scheduleId' data' =>
            rw [Direction.text_injective operation, Option.some.inj target,
              HistoryCommand.canonical.injective hrequest]

end CommandDigest

/-- Requests have one digest text exactly when they are the same: commands on
schedules, new recurring activities, and new tasks whose times are those of a
`datetime`. -/
theorem digestTexts_iff :
    (∀ a b : CommandDigest, digestText a.value = digestText b.value ↔ a = b) ∧
      (∀ a b : RecurrenceCreate, digestText a.modelDump = digestText b.modelDump ↔ a = b) ∧
      ∀ a b : TaskCreate, a.TimesInYears → b.TimesInYears →
        (digestText a.modelDump = digestText b.modelDump ↔ a = b) := by
  refine ⟨fun a b => CommandDigest.canonical.text_iff _,
    fun a b => RecurrenceCreate.canonical.text_iff _, fun a b ha hb => ⟨fun h => ?_, ?_⟩⟩
  · exact TaskCreate.modelDump_injective ha hb (write_injective _
      (valid_sortKeys a.modelDump_valid) (valid_sortKeys b.modelDump_valid) h)
  · rintro rfl
    rfl

/-- Two essays due a second apart, under one request id. -/
def earlierEssay : TaskCreate :=
  ⟨⟨"Essay", "", 60, 5, false, .any, none, some 63900000000000000⟩, 1, by decide⟩

def laterEssay : TaskCreate :=
  ⟨⟨"Essay", "", 60, 5, false, .any, none, some 63900000001000000⟩, 1, by decide⟩

theorem digestTexts_iff_essays :
    digestText earlierEssay.modelDump ≠ digestText laterEssay.modelDump := by
  intro h
  have same := (digestTexts_iff.2.2 earlierEssay laterEssay (by decide) (by decide)).mp h
  exact absurd (congrArg (·.deadline) same) (by decide)

end SmartPlanner
