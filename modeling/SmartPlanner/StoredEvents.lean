import SmartPlanner.DurableCommitments
import SmartPlanner.SentTimes

/-!
Stored commitments that the planner cannot read. `FixedEventCreate` bounds no
year and `FixedEvent` does, so what the store accepts and the preview converts
differ on the events that reach out of the supported years.
-/

namespace SmartPlanner

open Outcome Runs Tables FixedEventRepository

/-- What `FixedEventRepository.create` and `replace` accept: the request passes
its contract, its times are encoded, and `_record` validates the row again with
the times in UTC. -/
def FixedEventCreate.ofSent (sent : FixedEventCreate.Sent) : Except PyError FixedEventCreate := do
  let _ ← FixedEventCreate.stored sent
  if valid : EventValid sent.title sent.start.instant sent.stop.instant then
    return ⟨sent.title, sent.start.instant, sent.stop.instant, valid⟩
  else .error .validation

/-- The start and the end lie in the years that the planner supports. -/
def FixedEventCreate.InPlannerYears (event : FixedEventCreate) : Prop :=
  SupportedYear event.start ∧ SupportedYear event.stop

instance (event : FixedEventCreate) : Decidable event.InPlannerYears :=
  inferInstanceAs (Decidable (_ ∧ _))

/-- The event that a command asks to store. -/
def Command.event? : Command → Option FixedEventCreate
  | .createEvent _ data _ _ => some data
  | .replaceEvent _ _ data _ => some data.toFixedEventCreate
  | _ => none

/-- Every stored event has the property. -/
def EventsHave (P : FixedEventCreate → Prop) (store : Store) : Prop :=
  ∀ row ∈ store.events, P row.toFixedEventCreate

theorem FixedEventCreate.ofSent_ok {sent : FixedEventCreate.Sent} {event : FixedEventCreate} :
    FixedEventCreate.ofSent sent = .ok event ↔
      sent.Valid ∧ (InYears sent.start.instant ∧ InYears sent.stop.instant) ∧
        event.value = (sent.title, sent.start.instant, sent.stop.instant) := by
  unfold FixedEventCreate.ofSent FixedEventCreate.stored
  simp only [bind_ok, raiseIf_ok, not_not, mapM_encode_ok]
  constructor
  · rintro ⟨-, ⟨-, valid, years, -⟩, h⟩
    split at h
    · cases h
      exact ⟨valid, by simpa [FixedEventCreate.Sent.times] using years, rfl⟩
    · contradiction
  · rintro ⟨valid, years, value⟩
    refine ⟨_, ⟨⟨⟩, valid, by simpa [FixedEventCreate.Sent.times] using years, rfl⟩, ?_⟩
    obtain ⟨title, start, stop, eventValid⟩ := event
    simp only [FixedEventCreate.value, Prod.mk.injEq] at value
    obtain ⟨rfl, rfl, rfl⟩ := value
    rw [dif_pos eventValid]
    rfl

/-- An event is accepted from some request exactly if a `datetime` in UTC can hold
its ends. -/
theorem FixedEventCreate.ofSent_iff (event : FixedEventCreate) :
    (∃ sent, FixedEventCreate.ofSent sent = .ok event) ↔
      InYears event.start ∧ InYears event.stop := by
  constructor
  · rintro ⟨sent, h⟩
    obtain ⟨-, years, value⟩ := FixedEventCreate.ofSent_ok.mp h
    simp only [FixedEventCreate.value, Prod.mk.injEq] at value
    rwa [value.2.1, value.2.2]
  · rintro ⟨start, stop⟩
    obtain ⟨htitle, hlt, hstart, hstop⟩ := event.eventValid
    let sent : FixedEventCreate.Sent := ⟨event.title, ⟨event.start, 0, start, by decide⟩,
      ⟨event.stop, 0, stop, by decide⟩⟩
    have starts : sent.start.instant = event.start := Int.sub_zero _
    have stops : sent.stop.instant = event.stop := Int.sub_zero _
    refine ⟨sent, FixedEventCreate.ofSent_ok.mpr ⟨⟨htitle, ?_, ?_⟩, ?_, ?_⟩⟩
    · rw [starts, stops]
      exact hlt
    · rintro (seconds | seconds)
      · exact seconds hstart
      · exact seconds hstop
    · rw [starts, stops]
      exact ⟨start, stop⟩
    · rw [starts, stops]
      rfl

/-- The planner accepts an event exactly in its years. -/
theorem FixedEventCreate.planned_iff (event : FixedEventCreate) :
    (∃ planned, event.planned = .ok planned) ↔ event.InPlannerYears := by
  constructor
  · rintro ⟨planned, h⟩
    have value := FixedEventCreate.planned_ok.mp h
    simp only [FixedEvent.value, FixedEventCreate.value, Prod.mk.injEq] at value
    unfold FixedEventCreate.InPlannerYears
    rw [← value.2.1, ← value.2.2]
    exact ⟨planned.windowValid.1.1, planned.windowValid.2.1.1⟩
  · rintro ⟨start, stop⟩
    exact FixedEventCreate.planned_total start stop

section
variable {P : FixedEventCreate → Prop} {store store' : Store}

namespace FixedEventRepository

theorem create_have {owner id : UUID} {data : FixedEventCreate} {stamp : Int}
    {answer : FixedEventRow} (h : create store owner data id stamp = .ok (answer, store'))
    (kept : EventsHave P store) (new : P data) : EventsHave P store' := by
  obtain ⟨-, rfl, -, events, hevents, rfl⟩ := create_ok h
  intro row hrow
  rcases (Table.mem_insert? (insertRow_ok.mp hevents) row).mp hrow with old | rfl
  · exact kept row old
  · exact new

theorem replace_have {owner eventId : UUID} {data : FixedEventReplace} {stamp : Int}
    {answer : FixedEventRow} (h : replace store owner eventId data stamp = .ok (answer, store'))
    (kept : EventsHave P store) (new : P data.toFixedEventCreate) : EventsHave P store' := by
  obtain ⟨-, rfl⟩ := replace_ok h
  intro row hrow
  simp only [Table.mem_update] at hrow
  obtain ⟨old, hold, rfl⟩ := hrow
  split
  · exact new
  · exact kept old hold

theorem delete_have {owner eventId : UUID} {expectedVersion : Nat}
    (h : delete store owner eventId expectedVersion = .ok store') (kept : EventsHave P store) :
    EventsHave P store' := by
  unfold delete at h
  simp only at h
  split at h
  · rw [Except.ok.injEq] at h
    rw [← h]
    exact fun row hrow => kept row (Table.mem_delete.mp hrow).1
  · rw [bind_ok] at h
    obtain ⟨-, -, h⟩ := h
    contradiction

end FixedEventRepository

theorem Writes.events_eq {area : Area} (writes : Writes store store' area)
    (other : area ≠ .events) :
    store'.events = store.events := by
  cases area with
  | accounts =>
      obtain ⟨users, preferences, rfl⟩ := writes
      rfl
  | preferences =>
      obtain ⟨preferences, rfl⟩ := writes
      rfl
  | tasks =>
      obtain ⟨tasks, rfl⟩ := writes
      rfl
  | recurrences =>
      obtain ⟨recurrences, rfl⟩ := writes
      rfl
  | events => exact absurd rfl other
  | schedules =>
      obtain ⟨schedules, versions, commands, allocations, rfl⟩ := writes
      rfl

/-- A step stores no event but the one its command asks for. -/
theorem step_eventsHave {zoneInfo : String → Zone} {command : Command} (kept : EventsHave P store)
    (new : ∀ data ∈ command.event?, P data) : EventsHave P (step zoneInfo store command) := by
  unfold step
  split
  · next store' h =>
    cases command with
    | createEvent owner data id stamp =>
        obtain ⟨answer, h⟩ := snd_map_ok h
        exact FixedEventRepository.create_have h kept (new data rfl)
    | replaceEvent owner eventId data stamp =>
        obtain ⟨answer, h⟩ := snd_map_ok h
        exact FixedEventRepository.replace_have h kept (new data.toFixedEventCreate rfl)
    | deleteEvent => exact FixedEventRepository.delete_have h kept
    | _ =>
        intro row hrow
        rw [(perform_writes h).events_eq (fun same => nomatch same)] at hrow
        exact kept row hrow
  · exact kept

end

/-- The stored events of a run are among those its commands asked to store. -/
theorem reached_eventsHave {P : FixedEventCreate → Prop} (zoneInfo : String → Zone)
    {commands : List Command} (asked : ∀ command ∈ commands, ∀ data ∈ command.event?, P data) :
    EventsHave P (reached zoneInfo commands) :=
  run_invariant_of_mem (fun _ hrow => absurd hrow (Table.not_mem_empty _))
    fun _ command hmem kept => step_eventsHave kept (asked command hmem)

/-- `preview_schedule` ends with a preview or an `AppError`. -/
def PreviewOrRefused (outcome : Except PyError PlanPreview) : Prop :=
  (∃ preview, outcome = .ok preview) ∨ ∃ error, outcome = .error error ∧ Refusal error

/-- The store accepts every event of the years 1 to 9999, whichever horizon it
meets, and the planner converts exactly those that lie in its own years. In a run
that asks for such events only every preview of a supported horizon is answered. -/
theorem storedEvents_planned (event : FixedEventCreate) (zoneInfo : String → Zone)
    (commands : List Command) (user : UserRow) (data : PreviewRequest) (slotFree : Bool)
    (now : Int) :
    ((∃ sent, FixedEventCreate.ofSent sent = .ok event) ↔
      InYears event.start ∧ InYears event.stop) ∧
    ((∃ planned, event.planned = .ok planned) ↔ event.InPlannerYears) ∧
    ((∀ command ∈ commands, ∀ asked ∈ command.event?, asked.InPlannerYears) →
      SupportedYear (data.horizonStart (zoneInfo user.timezone)) →
      SupportedYear (data.horizonStop (zoneInfo user.timezone)) →
      PreviewOrRefused
        (previewSchedule zoneInfo (reached zoneInfo commands) user data slotFree now)) := by
  refine ⟨event.ofSent_iff, event.planned_iff, ?_⟩
  intro asked start stop
  have events := reached_eventsHave zoneInfo asked
  have supported : PageSupported zoneInfo (reached zoneInfo commands) user data := by
    refine ⟨fun row hrow => ?_, start, stop⟩
    unfold pagedEvents at hrow
    rw [planningEvents_eq] at hrow
    exact events row (mem_overlapping.mp (List.mem_of_mem_take hrow)).1
  have raises : Raises Refusal
      (previewSchedule zoneInfo (reached zoneInfo commands) user data slotFree now) :=
    raises_previewSchedule (storeOk_reached zoneInfo commands).sources supported
  cases hresult : previewSchedule zoneInfo (reached zoneInfo commands) user data slotFree now with
  | ok preview => exact Or.inl ⟨preview, rfl⟩
  | error error => exact Or.inr ⟨error, rfl, raises error hresult⟩

/-- A lease from the last hour of 1999 to Monday noon. -/
def lease : FixedEventCreate.Sent where
  title := "lease"
  start := ⟨946681200000000, 0, by decide, Datetime.utc_bounded⟩
  stop := ⟨lectureTime 720, 0, by decide, Datetime.utc_bounded⟩

def storedLease : FixedEventCreate :=
  ⟨"lease", 946681200000000, lectureTime 720, by decide⟩

theorem storedEvents_planned_lecture :
    (¬ ∃ planned, storedLease.planned = .ok planned) ∧
    PreviewOrRefused (previewSchedule (fun _ => Zone.utc) (reached (fun _ => Zone.utc) lectureRun)
      student (mondayRequest ⟨lectureTime 570, lectureTime 690, by decide⟩) true
      (lectureTime 480)) := by
  have asked : ∀ command ∈ lectureRun, ∀ data ∈ command.event?, data.InPlannerYears := by
    simp only [lectureRun, List.forall_mem_cons, Command.event?]
    decide
  obtain ⟨-, converted, answered⟩ := storedEvents_planned storedLease (fun _ => Zone.utc)
    lectureRun student (mondayRequest ⟨lectureTime 570, lectureTime 690, by decide⟩) true
    (lectureTime 480)
  exact ⟨converted.not.mpr (by decide), answered asked (by decide) (by decide)⟩

def leaseRun : List Command :=
  [.register 1 "student" "UTC" 0, .createTask 1 essayCreate 1 0, .createEvent 1 storedLease 100 0]

theorem previewSchedule_lease :
    FixedEventCreate.ofSent lease = .ok storedLease ∧
    storedLease.planned = .error .validation ∧
    ¬ PreviewOrRefused (previewSchedule (fun _ => Zone.utc) (reached (fun _ => Zone.utc) leaseRun)
      student (mondayRequest ⟨lectureTime 570, lectureTime 690, by decide⟩) true
      (lectureTime 480)) := by
  have raised : failure? (previewSchedule (fun _ => Zone.utc) (reached (fun _ => Zone.utc) leaseRun)
      student (mondayRequest ⟨lectureTime 570, lectureTime 690, by decide⟩) true
      (lectureTime 480)) = some .validation := by
    decide +kernel
  refine ⟨by decide, by decide, ?_⟩
  rw [failure?_eq_some.mp raised]
  rintro (⟨preview, h⟩ | ⟨error, h, error', h'⟩)
  · cases h
  · rw [← Except.error.inj h] at h'
    cases h'

end SmartPlanner
