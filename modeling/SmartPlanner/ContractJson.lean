import SmartPlanner.JsonTexts
import SmartPlanner.Library.Json
import SmartPlanner.RecurrenceModels
import SmartPlanner.ScheduleModels

/-!
`model_dump(mode="json")` of the contracts, with the fields in the order in which
they are declared, and what the texts with sorted keys tell apart.
-/

namespace SmartPlanner

open Json

def uuidValue (id : UUID) : Value := .str (uuidText id)

def dateValue (day : Int) : Value := .str (isoDate day)

def timeValue (t : Int) : Value := .str (isoZ t)

def textValue (text : String) : Value := .str text.toList

def Period.text : Period → String
  | .any => "any"
  | .morning => "morning"
  | .afternoon => "afternoon"
  | .evening => "evening"

def Frequency.text : Frequency → String
  | .daily => "daily"
  | .weekdays => "weekdays"
  | .weekly => "weekly"

def Weekday.text : Weekday → String
  | .mon => "mon"
  | .tue => "tue"
  | .wed => "wed"
  | .thu => "thu"
  | .fri => "fri"
  | .sat => "sat"
  | .sun => "sun"

namespace TaskCreate

def modelDump (task : TaskCreate) : Value := record [
  ("earliest_start", task.earliestStart.elim .null timeValue),
  ("deadline", task.deadline.elim .null timeValue),
  ("client_request_id", uuidValue task.clientRequestId),
  ("title", textValue task.title),
  ("description", textValue task.description),
  ("duration_minutes", .int task.durationMinutes),
  ("priority", .int task.priority),
  ("splittable", .bool task.splittable),
  ("preferred_period", textValue task.preferredPeriod.text)]

end TaskCreate

namespace RecurrenceCreate

def modelDump (data : RecurrenceCreate) : Value := record [
  ("title", textValue data.title),
  ("description", textValue data.description),
  ("duration_minutes", .int data.durationMinutes),
  ("priority", .int data.priority),
  ("splittable", .bool data.splittable),
  ("preferred_period", textValue data.preferredPeriod.text),
  ("frequency", textValue data.frequency.text),
  ("weekdays", .arr (data.weekdays.map fun day => textValue day.text)),
  ("start_date", dateValue data.startDate),
  ("end_date", data.endDate.elim .null dateValue),
  ("active", .bool data.active),
  ("client_request_id", uuidValue data.clientRequestId)]

end RecurrenceCreate

def TimeWindow.modelDump (window : TimeWindow) : Value := record [
  ("start", timeValue window.start),
  ("end", timeValue window.stop)]

def FixedEvent.modelDump (event : FixedEvent) : Value := record [
  ("start", timeValue event.start),
  ("end", timeValue event.stop),
  ("title", textValue event.title)]

def PlanBlock.modelDump (block : PlanBlock) : Value := record [
  ("start", timeValue block.start),
  ("end", timeValue block.stop),
  ("task_id", uuidValue block.taskId),
  ("locked", .bool block.locked)]

def ScheduleContent.modelDump (content : ScheduleContent) : Value := record [
  ("start_date", dateValue content.startDate),
  ("days", .int content.days),
  ("task_ids", .arr (content.taskIds.map uuidValue)),
  ("availability", .arr (content.availability.map TimeWindow.modelDump)),
  ("fixed_events", .arr (content.fixedEvents.map FixedEvent.modelDump)),
  ("blocks", .arr (content.blocks.map PlanBlock.modelDump))]

/-- A dictionary keyed by task. -/
def versionsValue (versions : List (UUID × Nat)) : Value :=
  .obj (versions.map fun entry => (uuidText entry.1, .int entry.2))

namespace ScheduleCreate

def members (data : ScheduleCreate) : List (String × Value) := [
  ("client_request_id", uuidValue data.clientRequestId),
  ("title", textValue data.title),
  ("content", data.content.modelDump),
  ("task_versions", versionsValue data.taskVersions),
  ("preference_version", .int data.preferenceVersion)]

def modelDump (data : ScheduleCreate) : Value := record data.members

end ScheduleCreate

def ScheduleReplace.modelDump (data : ScheduleReplace) : Value :=
  record (data.toScheduleCreate.members ++ [("expected_version", .int data.expectedVersion)])

def HistoryCommand.modelDump (data : HistoryCommand) : Value := record [
  ("client_request_id", uuidValue data.clientRequestId),
  ("expected_version", .int data.expectedVersion)]

section
variable (id : UUID) (day t : Int) (text : String)

@[simp] theorem sortKeys_uuidValue : sortKeys (uuidValue id) = uuidValue id := rfl

@[simp] theorem sortKeys_dateValue : sortKeys (dateValue day) = dateValue day := rfl

@[simp] theorem sortKeys_timeValue : sortKeys (timeValue t) = timeValue t := rfl

@[simp] theorem sortKeys_textValue : sortKeys (textValue text) = textValue text := rfl

@[simp] theorem valid_uuidValue : Valid (uuidValue id) := trivial

@[simp] theorem valid_dateValue : Valid (dateValue day) := trivial

@[simp] theorem valid_timeValue : Valid (timeValue t) := trivial

@[simp] theorem valid_textValue : Valid (textValue text) := trivial

end

theorem uuidValue_canonical : Canonical uuidValue := canonical_str uuidText_injective

theorem textValue_canonical : Canonical textValue := canonical_str String.toList_inj.mp

theorem dateValue_injective {a b : Int} (ha : 0 < a ∧ a ≤ 3652059) (hb : 0 < b ∧ b ≤ 3652059)
    (h : dateValue a = dateValue b) : a = b := isoDate_injective ha hb (Value.str.inj h)

theorem timeValue_injective {s t : Int} (hs : InYears s) (ht : InYears t)
    (h : timeValue s = timeValue t) : s = t := isoZ_injective hs ht (Value.str.inj h)

theorem textValue_injective {a b : String} (h : textValue a = textValue b) : a = b :=
  String.toList_inj.mp (Value.str.inj h)

theorem uuidValue_injective {a b : UUID} (h : uuidValue a = uuidValue b) : a = b :=
  uuidText_injective (Value.str.inj h)

theorem Period.text_injective {a b : Period} (h : a.text = b.text) : a = b := by
  revert h
  cases a <;> cases b <;> decide

theorem Frequency.text_injective {a b : Frequency} (h : a.text = b.text) : a = b := by
  revert h
  cases a <;> cases b <;> decide

theorem Weekday.text_injective {a b : Weekday} (h : a.text = b.text) : a = b := by
  revert h
  cases a <;> cases b <;> decide

/-- What contains a window tells its bounds apart. -/
theorem TimeWindow.eq_of_values {a b : TimeWindow} (hstart : timeValue a.start = timeValue b.start)
    (hstop : timeValue a.stop = timeValue b.stop) : a = b := by
  obtain ⟨⟨start, -⟩, ⟨stop, -⟩, -⟩ := a.windowValid
  obtain ⟨⟨start', -⟩, ⟨stop', -⟩, -⟩ := b.windowValid
  have hstart := timeValue_injective start.inYears start'.inYears hstart
  have hstop := timeValue_injective stop.inYears stop'.inYears hstop
  cases a
  cases b
  simpa using ⟨hstart, hstop⟩

theorem TimeWindow.canonical : Canonical TimeWindow.modelDump where
  valid window := valid_record (by simp) (by simp)
  injective := by
    intro a b h
    have fields := record_injective h rfl (by simp)
    simp only [List.map_cons, List.map_nil, List.cons.injEq, sortKeys_timeValue, and_true] at fields
    exact TimeWindow.eq_of_values fields.1 fields.2

theorem FixedEvent.canonical : Canonical FixedEvent.modelDump where
  valid event := valid_record (by simp) (by simp)
  injective := by
    intro a b h
    have fields := record_injective h rfl (by simp)
    simp only [List.map_cons, List.map_nil, List.cons.injEq, sortKeys_timeValue,
      sortKeys_textValue, and_true] at fields
    have window := TimeWindow.eq_of_values fields.1 fields.2.1
    have title := textValue_injective fields.2.2
    cases a
    cases b
    simpa using ⟨window, title⟩

theorem PlanBlock.canonical : Canonical PlanBlock.modelDump where
  valid block := valid_record (by simp) (by simp [Valid])
  injective := by
    intro a b h
    have fields := record_injective h rfl (by simp)
    simp only [List.map_cons, List.map_nil, List.cons.injEq, sortKeys_timeValue,
      sortKeys_uuidValue, sortKeys_bool, Value.bool.injEq, and_true] at fields
    have window := TimeWindow.eq_of_values fields.1 fields.2.1
    have task := uuidValue_injective fields.2.2.1
    cases a
    cases b
    simpa using ⟨window, task, fields.2.2.2⟩

theorem ScheduleContent.canonical : Canonical ScheduleContent.modelDump where
  valid content := valid_record (by simp) (by
    simp only [List.forall_mem_cons, valid_dateValue, Valid, List.not_mem_nil, false_imp_iff,
      implies_true, and_true, true_and]
    exact ⟨uuidValue_canonical.list.valid _, TimeWindow.canonical.list.valid _,
      FixedEvent.canonical.list.valid _, PlanBlock.canonical.list.valid _⟩)
  injective := by
    intro a b h
    have fields := record_injective h rfl (by simp)
    simp only [List.map_cons, List.map_nil, List.cons.injEq, sortKeys_dateValue, sortKeys_int,
      Value.int.injEq, and_true] at fields
    obtain ⟨hdate, hdays, htasks, havailability, hevents, hblocks⟩ := fields
    obtain ⟨⟨first, last⟩, -⟩ := a.planningValid
    obtain ⟨⟨first', last'⟩, -⟩ := b.planningValid
    have date := dateValue_injective ⟨by omega, by omega⟩ ⟨by omega, by omega⟩ hdate
    have tasks := uuidValue_canonical.list.injective htasks
    have availability := TimeWindow.canonical.list.injective havailability
    have events := FixedEvent.canonical.list.injective hevents
    have blocks := PlanBlock.canonical.list.injective hblocks
    obtain ⟨⟨_, _, _, _, _, _⟩, _, _⟩ := a
    obtain ⟨⟨_, _, _, _, _, _⟩, _, _⟩ := b
    dsimp only at date hdays tasks availability events blocks
    subst date hdays tasks availability events blocks
    rfl

/-- Keys in order are distinct. -/
theorem versionsValue_valid {versions : List (UUID × Nat)}
    (sorted : versions.Pairwise fun a b => a.1 < b.1) : Valid (versionsValue versions) := by
  refine ⟨?_, validMembers_iff.mpr fun member hmember => ?_⟩
  · rw [List.map_map, List.Nodup, List.pairwise_map]
    exact sorted.imp fun hlt heq => hlt.ne (uuidText_injective heq)
  · obtain ⟨entry, -, rfl⟩ := List.mem_map.mp hmember
    trivial

theorem versionsValue_injective {xs ys : List (UUID × Nat)}
    (hx : xs.Pairwise fun a b => a.1 < b.1) (hy : ys.Pairwise fun a b => a.1 < b.1)
    (h : sortKeys (versionsValue xs) = sortKeys (versionsValue ys)) : xs = ys := by
  have hperm := members_perm h
  rw [List.map_map, List.map_map] at hperm
  have hinj : Function.Injective ((fun member : List Char × Value => (member.1, sortKeys member.2)) ∘
      fun entry : UUID × Nat => (uuidText entry.1, Value.int entry.2)) := by
    intro a b hab
    simp only [Function.comp_apply, Prod.mk.injEq, sortKeys_int, Value.int.injEq,
      Nat.cast_inj] at hab
    exact Prod.ext (uuidText_injective hab.1) hab.2
  have perm := (List.map_perm_map_iff hinj).mp hperm
  exact List.Perm.eq_of_pairwise (fun a b _ _ hab hba => absurd hab (Nat.lt_asymm hba)) hx hy perm

theorem ScheduleCreate.members_valid (data : ScheduleCreate) :
    ∀ member ∈ data.members, Valid member.2 := by
  simp only [ScheduleCreate.members, List.forall_mem_cons, valid_uuidValue, valid_textValue, Valid,
    List.not_mem_nil, false_imp_iff, implies_true, and_true, true_and]
  exact ⟨ScheduleContent.canonical.valid _, versionsValue_valid data.candidateValid.2.1⟩

theorem ScheduleCreate.eq_of_members {a b : ScheduleCreate}
    (h : a.members.map (fun member => sortKeys member.2) =
      b.members.map fun member => sortKeys member.2) : a = b := by
  simp only [ScheduleCreate.members, List.map_cons, List.map_nil, List.cons.injEq,
    sortKeys_uuidValue, sortKeys_textValue, sortKeys_int, Value.int.injEq, Nat.cast_inj,
    and_true] at h
  obtain ⟨hid, htitle, hcontent, hversions, hpreferences⟩ := h
  have id := uuidValue_injective hid
  have title := textValue_injective htitle
  have content := ScheduleContent.canonical.injective hcontent
  have versions := versionsValue_injective a.candidateValid.2.1 b.candidateValid.2.1 hversions
  obtain ⟨⟨_, _, _, _, _⟩, _⟩ := a
  obtain ⟨⟨_, _, _, _, _⟩, _⟩ := b
  dsimp only at id title content versions hpreferences
  subst id title content versions hpreferences
  rfl

theorem ScheduleCreate.canonical : Canonical ScheduleCreate.modelDump where
  valid data := valid_record (by simp [ScheduleCreate.members]) data.members_valid
  injective h := ScheduleCreate.eq_of_members
    (record_injective h rfl (by simp [ScheduleCreate.members]))

theorem ScheduleReplace.canonical : Canonical ScheduleReplace.modelDump where
  valid data := valid_record (by simp [ScheduleCreate.members]) (by
    rw [List.forall_mem_append, List.forall_mem_singleton]
    exact ⟨data.toScheduleCreate.members_valid, trivial⟩)
  injective := by
    intro a b h
    have fields := record_injective h rfl (by simp [ScheduleCreate.members])
    rw [List.map_append, List.map_append] at fields
    obtain ⟨hcreate, hversion⟩ := List.append_inj fields (by simp [ScheduleCreate.members])
    have create := ScheduleCreate.eq_of_members hcreate
    simp only [List.map_cons, List.map_nil, List.cons.injEq, sortKeys_int, Value.int.injEq,
      Nat.cast_inj, and_true] at hversion
    cases a
    cases b
    simpa using ⟨create, hversion⟩

theorem HistoryCommand.canonical : Canonical HistoryCommand.modelDump where
  valid data := valid_record (by simp) (by simp [Valid])
  injective := by
    intro a b h
    have fields := record_injective h rfl (by simp)
    simp only [List.map_cons, List.map_nil, List.cons.injEq, sortKeys_uuidValue, sortKeys_int,
      Value.int.injEq, Nat.cast_inj, and_true] at fields
    have id := uuidValue_injective fields.1
    cases a
    cases b
    simpa using ⟨id, fields.2⟩

theorem optionalTime_injective {a b : Option Int} (ha : ∀ t ∈ a, InYears t)
    (hb : ∀ t ∈ b, InYears t)
    (h : sortKeys (a.elim .null timeValue) = sortKeys (b.elim .null timeValue)) : a = b :=
  optional_injective (by simp [timeValue]) timeValue_injective ha hb h

theorem optionalDate_injective {a b : Option Int} (ha : ∀ day ∈ a, 0 < day ∧ day ≤ 3652059)
    (hb : ∀ day ∈ b, 0 < day ∧ day ≤ 3652059)
    (h : sortKeys (a.elim .null dateValue) = sortKeys (b.elim .null dateValue)) : a = b :=
  optional_injective (by simp [dateValue]) dateValue_injective ha hb h

end SmartPlanner
