import SmartPlanner.FreshView

/-!
Schedule commands are applied exactly once. A commit leaves a receipt under its
owner and request id; receipts are never removed, and a command whose id has a
receipt is answered from it, whatever has become of the schedule since.
-/

namespace SmartPlanner

open Outcome Runs Tables ScheduleRepository

namespace CommandDigest

def requestId : CommandDigest → UUID
  | .create data => data.clientRequestId
  | .replace _ data => data.clientRequestId
  | .travel _ _ data => data.clientRequestId

/-- The schedule a request addresses; a create has none yet. -/
def scheduleId? : CommandDigest → Option UUID
  | .create _ => none
  | .replace scheduleId _ => some scheduleId
  | .travel _ scheduleId _ => some scheduleId

/-- The same request under another id. -/
def withId (r : UUID) : CommandDigest → CommandDigest
  | .create data => .create { data with clientRequestId := r }
  | .replace scheduleId data => .replace scheduleId { data with clientRequestId := r }
  | .travel direction scheduleId data => .travel direction scheduleId { data with
      clientRequestId := r }

/-- The command that sends a request; `drawn` is the id a create would use. -/
def command (owner drawn : UUID) (now stamp : Int) : CommandDigest → Command
  | .create data => .createSchedule owner data drawn now stamp
  | .replace scheduleId data => .replaceSchedule owner scheduleId data now stamp
  | .travel direction scheduleId data => .travelSchedule owner scheduleId data direction now stamp

end CommandDigest

/-- The answer to one attempt of a request. -/
def attempt (zoneInfo : String → Zone) (store : Store) (owner drawn : UUID) (now stamp : Int) :
    CommandDigest → Except PyError (ScheduleResult × Store)
  | .create data => create zoneInfo store owner data drawn now stamp
  | .replace scheduleId data => replace zoneInfo store owner scheduleId data now stamp
  | .travel direction scheduleId data =>
      travel zoneInfo store owner scheduleId data direction now stamp

/-- The command applies the request for the owner, with this answer. -/
def Applies (zoneInfo : String → Zone) (owner : UUID) (request : CommandDigest)
    (result : ScheduleResult) (store : Store) (command : Command) : Prop :=
  ∃ drawn now stamp store', command = request.command owner drawn now stamp ∧
    attempt zoneInfo store owner drawn now stamp request = .ok (result, store') ∧
    result.replayed = false

/-- The command at place `i` applies the request. -/
def AppliedAt (zoneInfo : String → Zone) (commands : List Command) (owner : UUID)
    (request : CommandDigest) (result : ScheduleResult) (i : ℕ) : Prop :=
  FiresAt (step zoneInfo) Store.empty commands (Applies zoneInfo owner request result) i

/-- The schedule a request addresses is one of the owner's. -/
def Existing (store : Store) (owner : UUID) (request : CommandDigest) : Prop :=
  ∀ id ∈ request.scheduleId?, ∃ row ∈ store.schedules, row.id = id ∧ row.userId = owner

/-- What holds of the requests of an owner after the commands of a run. -/
structure ExactlyOnce (zoneInfo : String → Zone) (commands : List Command) (owner : UUID) :
    Prop where
  atMostOnce : ∀ request request' result result' i j, request.requestId = request'.requestId →
    AppliedAt zoneInfo commands owner request result i →
    AppliedAt zoneInfo commands owner request' result' j → i = j
  resent : ∀ request result i, AppliedAt zoneInfo commands owner request result i →
    ∀ drawn now stamp, ∃ schedule,
      view (reached zoneInfo commands) owner result.schedule.id = .ok schedule ∧
      attempt zoneInfo (reached zoneInfo commands) owner drawn now stamp request =
        .ok (⟨schedule, true, result.appliedVersion⟩, reached zoneInfo commands)
  conflict : ∀ request result i, AppliedAt zoneInfo commands owner request result i →
    ∀ request', request'.requestId = request.requestId → request' ≠ request →
    Existing (reached zoneInfo commands) owner request' → ∀ drawn now stamp,
    attempt zoneInfo (reached zoneInfo commands) owner drawn now stamp request' =
      .error (.app .commandRequestConflict)
  replays : ∀ request drawn now stamp result store',
    attempt zoneInfo (reached zoneInfo commands) owner drawn now stamp request =
      .ok (result, store') → result.replayed = true → store' = reached zoneInfo commands
  failed : ∀ request drawn now stamp error,
    attempt zoneInfo (reached zoneInfo commands) owner drawn now stamp request = .error error →
    step zoneInfo (reached zoneInfo commands) (request.command owner drawn now stamp) =
      reached zoneInfo commands
  usable : ∀ r r', (∀ request result i, AppliedAt zoneInfo commands owner request result i →
      request.requestId ≠ r ∧ request.requestId ≠ r') →
    ∀ (request : CommandDigest) drawn now stamp,
    (attempt zoneInfo (reached zoneInfo commands) owner drawn now stamp
      (request.withId r)).map Prod.fst =
    (attempt zoneInfo (reached zoneInfo commands) owner drawn now stamp
      (request.withId r')).map Prod.fst

/-- The receipt of an applied request. -/
def receiptOf (owner : UUID) (request : CommandDigest) (result : ScheduleResult) : CommandRow :=
  ⟨owner, request.requestId, result.schedule.id, request, result.appliedVersion⟩

section
variable {zoneInfo : String → Zone} {store store' : Store} {owner drawn : UUID}
  {now stamp : Int} {request : CommandDigest} {result : ScheduleResult}

theorem perform_command :
    perform zoneInfo store (request.command owner drawn now stamp) =
      Prod.snd <$> attempt zoneInfo store owner drawn now stamp request := by
  cases request <;> rfl

theorem step_command (h : attempt zoneInfo store owner drawn now stamp request =
      .ok (result, store')) :
    step zoneInfo store (request.command owner drawn now stamp) = store' := by
  unfold step
  rw [perform_command, h]
  rfl

theorem view_id {scheduleId : UUID} {saved : SavedSchedule}
    (h : view store owner scheduleId = .ok saved) : saved.id = scheduleId := by
  unfold view at h
  simp only [bind_ok, pure_eq_ok, Except.ok.injEq] at h
  obtain ⟨found, hheader, rfl⟩ := h
  obtain ⟨-, -, hid, -⟩ := header_ok.mp hheader
  exact hid

/-- What an answered attempt did: nothing, or it left its receipt on a schedule
of the owner. -/
theorem attempt_ok (h : attempt zoneInfo store owner drawn now stamp request =
      .ok (result, store')) :
    (result.replayed = true ∧ store' = store) ∨
    (result.replayed = false ∧ store.commands.find? (owner, request.requestId) = none ∧
      store'.commands.rows = store.commands.rows ++ [receiptOf owner request result] ∧
      (∃ schedule ∈ store'.schedules, schedule.id = result.schedule.id ∧
        schedule.userId = owner) ∧
      ∀ id ∈ request.scheduleId?, id = result.schedule.id) := by
  cases request with
  | create data =>
      rcases create_ok h with h | ⟨zone, tasks, values, report, created⟩
      · exact Or.inl h
      · obtain ⟨hnew, happlied, hview⟩ := created.answer
        have hid := view_id hview
        refine Or.inr ⟨hnew, created.unanswered, ?_,
          ⟨_, (created.commit.schedules _).mpr (Or.inr rfl), hid.symm, rfl⟩, nofun⟩
        rw [created.commit.commands, receiptOf, happlied, hid]
        rfl
  | replace scheduleId data =>
      rcases replace_ok h with ⟨hreplayed, hstore, -⟩ | ⟨schedule, current, tasks, values, report,
        replaced⟩
      · exact Or.inl ⟨hreplayed, hstore⟩
      · obtain ⟨hnew, happlied, hview⟩ := replaced.answer
        have hid := view_id hview
        refine Or.inr ⟨hnew, replaced.addressed.unanswered, ?_,
          ⟨_, (replaced.commit.schedules _).mpr (Or.inr rfl),
            replaced.addressed.schedule_id.trans hid.symm, replaced.addressed.schedule_user⟩,
          fun id hmem => ?_⟩
        · rw [replaced.commit.commands, receiptOf, happlied, hid]
          rfl
        · rw [hid, ← Option.mem_some.mp hmem]
  | travel direction scheduleId data =>
      rcases travel_ok h with h | ⟨schedule, current, goal, tasks, values, report, travelled⟩
      · exact Or.inl h
      · obtain ⟨hnew, happlied, hview⟩ := travelled.answer
        have hid := view_id hview
        refine Or.inr ⟨hnew, travelled.addressed.unanswered, ?_,
          ⟨_, (travelled.commit.schedules _).mpr (Or.inr rfl),
            travelled.addressed.schedule_id.trans hid.symm, travelled.addressed.schedule_user⟩,
          fun id hmem => ?_⟩
        · rw [travelled.commit.commands, receiptOf, happlied, hid]
          rfl
        · rw [hid, ← Option.mem_some.mp hmem]

/-- Schedules keep their ids and owners, and receipts stay. -/
structure Retained (store store' : Store) : Prop where
  schedules : ∀ row ∈ store.schedules, ∃ row' ∈ store'.schedules,
    row'.id = row.id ∧ row'.userId = row.userId
  receipts : ∀ receipt ∈ store.commands, receipt ∈ store'.commands

theorem Commit.retained {schedule : ScheduleRow} {state : Candidate} {receipt : CommandRow}
    (commit : Commit store store' schedule state receipt)
    (sameOwner : ∀ row ∈ store.schedules, row.id = schedule.id → row.userId = schedule.userId) :
    Retained store store' := by
  refine ⟨fun row hrow => ?_, fun old hold => ?_⟩
  · by_cases hid : row.id = schedule.id
    · exact ⟨schedule, (commit.schedules schedule).mpr (Or.inr rfl), hid.symm,
        (sameOwner row hrow hid).symm⟩
    · exact ⟨row, (commit.schedules row).mpr (Or.inl ⟨hrow, hid⟩), rfl, rfl⟩
  · rw [← Table.mem_rows, commit.commands]
    exact List.mem_append_left _ hold

theorem step_retained (store : Store) (command : Command) :
    Retained store (step zoneInfo store command) := by
  cases @step_transition zoneInfo store command with
  | sources grow => exact ⟨fun row hrow => ⟨row, grow.schedules ▸ hrow, rfl, rfl⟩,
      fun receipt hreceipt => grow.commands ▸ hreceipt⟩
  | created created =>
      exact created.commit.retained fun row hrow hid => absurd hid (created.freshId row hrow)
  | replaced replaced => exact replaced.commit.retained replaced.addressed.sameOwner
  | travelled travelled => exact travelled.commit.retained travelled.addressed.sameOwner

/-- The receipt is stored and its schedule, the one the request addressed, is one
of the owner's. -/
structure Receipted (owner : UUID) (request : CommandDigest) (result : ScheduleResult)
    (store : Store) : Prop where
  receipt : receiptOf owner request result ∈ store.commands
  schedule : ∃ schedule ∈ store.schedules, schedule.id = result.schedule.id ∧
    schedule.userId = owner
  addressed : ∀ id ∈ request.scheduleId?, id = result.schedule.id

theorem Receipted.stays (receipted : Receipted owner request result store) (command : Command) :
    Receipted owner request result (step zoneInfo store command) := by
  obtain ⟨hreceipt, ⟨schedule, hs, hid, howner⟩, haddressed⟩ := receipted
  have retained := @step_retained zoneInfo store command
  obtain ⟨schedule', hs', hsame, hsameOwner⟩ := retained.schedules schedule hs
  exact ⟨retained.receipts _ hreceipt, ⟨schedule', hs', hsame.trans hid,
    hsameOwner.trans howner⟩, haddressed⟩

theorem Applies.receipted {command : Command}
    (applies : Applies zoneInfo owner request result store command) :
    Receipted owner request result (step zoneInfo store command) := by
  obtain ⟨drawn, now, stamp, store', rfl, h, hnew⟩ := applies
  rw [step_command h]
  rcases attempt_ok h with ⟨hreplayed, -⟩ | ⟨-, -, hcommands, hschedule, haddressed⟩
  · rw [hnew] at hreplayed
    contradiction
  · refine ⟨?_, hschedule, haddressed⟩
    rw [← Table.mem_rows, hcommands]
    exact List.mem_append_right _ (List.mem_singleton_self _)

theorem Applies.unanswered {command : Command}
    (applies : Applies zoneInfo owner request result store command) :
    store.commands.find? (owner, request.requestId) = none := by
  obtain ⟨drawn, now, stamp, store', -, h, hnew⟩ := applies
  rcases attempt_ok h with ⟨hreplayed, -⟩ | ⟨-, hnone, -⟩
  · rw [hnew] at hreplayed
    contradiction
  · exact hnone

/-- Whether some receipt has the request id of the owner. -/
def Answered (owner r : UUID) (store : Store) : Prop :=
  ∃ receipt ∈ store.commands, receipt.userId = owner ∧ receipt.clientRequestId = r

theorem not_answered_iff {r : UUID} :
    ¬ Answered owner r store ↔ store.commands.find? (owner, r) = none := by
  rw [Table.find?_eq_none]
  unfold Answered
  simp only [not_exists, not_and, ne_eq, Prod.mk.injEq]

theorem Answered.stays {r : UUID} (answered : Answered owner r store) (command : Command) :
    Answered owner r (step zoneInfo store command) := by
  obtain ⟨receipt, hreceipt, h⟩ := answered
  exact ⟨receipt, (step_retained store command).receipts receipt hreceipt, h⟩

theorem Receipted.answered (receipted : Receipted owner request result store) :
    Answered owner request.requestId store :=
  ⟨_, receipted.receipt, rfl, rfl⟩

/-- A request id comes to be answered only by a command that applies it. -/
theorem Answered.before {r : UUID} {command : Command}
    (answered : Answered owner r (step zoneInfo store command)) :
    Answered owner r store ∨ ∃ request result, request.requestId = r ∧
      Applies zoneInfo owner request result store command := by
  have sent : ∀ (request : CommandDigest) (sender drawn : UUID) (now stamp : Int),
      command = request.command sender drawn now stamp →
      Answered owner r store ∨ ∃ request result, request.requestId = r ∧
        Applies zoneInfo owner request result store command := by
    rintro request sender drawn now stamp rfl
    unfold step at answered
    rw [perform_command] at answered
    cases h : attempt zoneInfo store sender drawn now stamp request with
    | error error =>
        rw [h] at answered
        exact Or.inl answered
    | ok answer =>
        obtain ⟨result, next⟩ := answer
        rw [h] at answered
        obtain ⟨receipt, hreceipt, howner, hr⟩ := answered
        change receipt ∈ next.commands at hreceipt
        rcases attempt_ok h with ⟨-, rfl⟩ | ⟨hnew, -, hcommands, -⟩
        · exact Or.inl ⟨receipt, hreceipt, howner, hr⟩
        · rw [← Table.mem_rows, hcommands, List.mem_append, List.mem_singleton] at hreceipt
          rcases hreceipt with hold | rfl
          · exact Or.inl ⟨receipt, hold, howner, hr⟩
          · change sender = owner at howner
            subst howner
            exact Or.inr ⟨request, result, hr, drawn, now, stamp, next, rfl, h, hnew⟩
  have unsent : command.clock? = none → Answered owner r store := by
    intro sourceOnly
    unfold step at answered
    cases h : perform zoneInfo store command with
    | error error =>
        rw [h] at answered
        exact answered
    | ok next =>
        rw [h] at answered
        unfold Answered at answered ⊢
        rwa [(perform_sources h sourceOnly).commands] at answered
  cases command with
  | createSchedule sender data id now stamp => exact sent (.create data) sender id now stamp rfl
  | replaceSchedule sender id data now stamp =>
      exact sent (.replace id data) sender id now stamp rfl
  | travelSchedule sender id data direction now stamp =>
      exact sent (.travel direction id data) sender id now stamp rfl
  | _ => exact Or.inl (unsent rfl)

/-! A request id with a receipt. -/

theorem view_total (ok : StoreOk zoneInfo store) {schedule : ScheduleRow}
    (hs : schedule ∈ store.schedules) :
    ∃ saved, view store schedule.userId schedule.id = .ok saved := by
  obtain ⟨row, hrow⟩ := (ok.schedules schedule hs).cursor
  obtain ⟨found, hfound, -⟩ := header_total hs hrow.1 hrow.2
  unfold view
  rw [hfound]
  exact ⟨_, rfl⟩

/-- Past the lock and the header, every operation first looks for a receipt. -/
theorem attempt_of_replay {zone : String} (locked : ownerLock store owner = .ok zone)
    (headed : ∀ id ∈ request.scheduleId?, ∃ found, header store owner id = .ok found) :
    (∀ result, replay store owner request.requestId request = .ok (some result) →
      attempt zoneInfo store owner drawn now stamp request = .ok (result, store)) ∧
    (∀ error, replay store owner request.requestId request = .error error →
      attempt zoneInfo store owner drawn now stamp request = .error error) := by
  cases request with
  | create data =>
      refine ⟨fun result h => ?_, fun error h => ?_⟩ <;>
        simp only [CommandDigest.requestId] at h <;>
        simp [attempt, create, locked, h]
  | replace scheduleId data =>
      obtain ⟨found, hfound⟩ := headed scheduleId rfl
      refine ⟨fun result h => ?_, fun error h => ?_⟩ <;>
        simp only [CommandDigest.requestId] at h <;>
        simp [attempt, replace, locked, hfound, h]
  | travel direction scheduleId data =>
      obtain ⟨found, hfound⟩ := headed scheduleId rfl
      refine ⟨fun result h => ?_, fun error h => ?_⟩ <;>
        simp only [CommandDigest.requestId] at h <;>
        simp [attempt, travel, locked, hfound, h]

/-- What an attempt under an answered request id comes to. -/
theorem Receipted.attempt (ok : StoreOk zoneInfo store)
    (receipted : Receipted owner request result store) {request' : CommandDigest}
    (existing : Existing store owner request') :
    (∀ answer, replay store owner request'.requestId request' = .ok (some answer) →
      attempt zoneInfo store owner drawn now stamp request' = .ok (answer, store)) ∧
    (∀ error, replay store owner request'.requestId request' = .error error →
      attempt zoneInfo store owner drawn now stamp request' = .error error) := by
  obtain ⟨schedule, hs, -, rfl⟩ := receipted.schedule
  obtain ⟨user, huser, hid⟩ := (ok.schedules schedule hs).account
  refine attempt_of_replay (ownerLock_ok.mpr ⟨user, huser, hid, rfl⟩) fun id hmem => ?_
  obtain ⟨row, hrow, rfl, howner⟩ := existing id hmem
  obtain ⟨current, hcurrent⟩ := (ok.schedules row hrow).cursor
  obtain ⟨found, hfound, -⟩ := header_total hrow hcurrent.1 hcurrent.2
  exact ⟨found, howner ▸ hfound⟩

theorem Receipted.find (receipted : Receipted owner request result store) :
    store.commands.find? (owner, request.requestId) = some (receiptOf owner request result) :=
  Table.find?_eq_some.mpr ⟨receipted.receipt, rfl⟩

/-- The request that was applied is answered from its receipt. -/
theorem Receipted.resent (ok : StoreOk zoneInfo store)
    (receipted : Receipted owner request result store) :
    ∃ schedule, view store owner result.schedule.id = .ok schedule ∧
      SmartPlanner.attempt zoneInfo store owner drawn now stamp request =
        .ok (⟨schedule, true, result.appliedVersion⟩, store) := by
  obtain ⟨row, hs, hid, howner⟩ := receipted.schedule
  have existing : Existing store owner request := fun target hmem =>
    ⟨row, hs, hid.trans (receipted.addressed target hmem).symm, howner⟩
  obtain ⟨schedule, hview⟩ := view_total ok hs
  rw [hid, howner] at hview
  refine ⟨schedule, hview, (receipted.attempt ok existing).1 _ ?_⟩
  unfold replay
  rw [receipted.find]
  simp only [raiseIf_bind_ok]
  refine ⟨fun hne => hne rfl, ?_⟩
  change view store owner result.schedule.id >>= _ = _
  rw [hview]
  rfl

/-- Another request under the same id is refused. -/
theorem Receipted.conflict (ok : StoreOk zoneInfo store)
    (receipted : Receipted owner request result store) {request' : CommandDigest}
    (same : request'.requestId = request.requestId) (other : request' ≠ request)
    (existing : Existing store owner request') :
    SmartPlanner.attempt zoneInfo store owner drawn now stamp request' =
      .error (.app .commandRequestConflict) := by
  refine (receipted.attempt ok existing).2 _ ?_
  unfold replay
  rw [same, receipted.find]
  exact bind_error.mpr (Or.inl (raiseIf_error.mpr ⟨fun heq => other heq.symm, rfl⟩))

/-! A request id without one. -/

theorem finish_fst {scheduleId r : UUID} {digest : CommandDigest} {version : Nat}
    (unanswered : store.commands.find? (owner, r) = none) :
    (finish store owner scheduleId r digest version).map Prod.fst =
      (view store owner scheduleId).map fun schedule => ⟨schedule, false, version⟩ := by
  obtain ⟨table, htable⟩ := Table.insert?_isSome store.commands
    ⟨owner, r, scheduleId, digest, version⟩ (Table.find?_eq_none.mp unanswered)
  have hview : view { store with commands := table } owner scheduleId =
      view store owner scheduleId := rfl
  unfold finish
  rw [insertRow_ok.mpr htable, ok_bind, map_bind, hview]
  rfl

theorem attempt_unanswered {r r' : UUID} (hr : store.commands.find? (owner, r) = none)
    (hr' : store.commands.find? (owner, r') = none) :
    (attempt zoneInfo store owner drawn now stamp (request.withId r)).map Prod.fst =
      (attempt zoneInfo store owner drawn now stamp (request.withId r')).map Prod.fst := by
  cases request with
  | create data =>
      simp only [attempt, CommandDigest.withId, create, replay_none.mpr hr, replay_none.mpr hr',
        ok_bind, map_bind]
      refine bind_congr_ok fun zone _ => bind_congr_ok fun validated _ => bind_congr_ok
        fun _ _ => bind_congr_ok fun schedules _ => bind_congr_ok fun inserted hinsert =>
        bind_congr_ok fun allocated halloc => ?_
      have same : allocated.commands = store.commands := by
        rw [(allocations_ok halloc).2.2, (insertState_ok hinsert).2.2]
      rw [finish_fst (same ▸ hr), finish_fst (same ▸ hr')]
  | replace scheduleId data =>
      simp only [attempt, CommandDigest.withId, replace, replay_none.mpr hr, replay_none.mpr hr',
        ok_bind, map_bind]
      refine bind_congr_ok fun zone _ => bind_congr_ok fun found _ => bind_congr_ok
        fun version _ => bind_congr_ok fun validated _ => bind_congr_ok fun allocated halloc =>
        bind_congr_ok fun inserted hinsert => ?_
      have same : inserted.commands = store.commands := by
        rw [(insertState_ok hinsert).2.2, (allocations_ok halloc).2.2]
        rfl
      exact (finish_fst (by exact same ▸ hr)).trans (finish_fst (by exact same ▸ hr')).symm
  | travel direction scheduleId data =>
      simp only [attempt, CommandDigest.withId, travel, replay_none.mpr hr, replay_none.mpr hr',
        ok_bind, map_bind]
      refine bind_congr_ok fun zone _ => bind_congr_ok fun found _ => bind_congr_ok
        fun version _ => ?_
      cases target store scheduleId found.schedule.currentRevision direction with
      | none => rfl
      | some goal =>
          simp only [map_bind]
          refine bind_congr_ok fun validated _ => bind_congr_ok fun allocated halloc => ?_
          have same : allocated.commands = store.commands := by
            rw [(allocations_ok halloc).2.2]
          exact (finish_fst (by exact same ▸ hr)).trans (finish_fst (by exact same ▸ hr')).symm

/-! Over a run. -/

theorem AppliedAt.receipted {commands : List Command} {i : ℕ}
    (applied : AppliedAt zoneInfo commands owner request result i) :
    Receipted owner request result (reached zoneInfo commands) :=
  marked_of_firesAt (storeOk_empty zoneInfo) storeOk_step (fun _ _ _ applies => applies.receipted)
    (fun _ command _ receipted => receipted.stays command) applied

/-- Two commands that apply requests under one id are one command. -/
theorem AppliedAt.unique {commands : List Command} {request' : CommandDigest}
    {result' : ScheduleResult} {i j : ℕ} (same : request.requestId = request'.requestId)
    (hi : AppliedAt zoneInfo commands owner request result i)
    (hj : AppliedAt zoneInfo commands owner request' result' j) : i = j := by
  have unique := @firesAt_unique _ _ (step zoneInfo) Store.empty
    (fun store command => ∃ request' result', request'.requestId = request.requestId ∧
      Applies zoneInfo owner request' result' store command)
    (Answered owner request.requestId) commands _ (storeOk_empty zoneInfo) storeOk_step
    (by
      rintro store command - ⟨request', result', hid, applies⟩
      exact not_answered_iff.mpr (hid ▸ applies.unanswered))
    (by
      rintro store command - ⟨request', result', hid, applies⟩
      exact hid ▸ applies.receipted.answered)
    (fun store command _ answered => answered.stays command) i j
  refine unique (hi.imp fun command h => ⟨h.1, request, result, rfl, h.2⟩)
    (hj.imp fun command h => ⟨h.1, request', result', same.symm, h.2⟩)

/-- An id under which nothing was applied has no receipt. -/
theorem unanswered_of_unapplied {commands : List Command} {r : UUID}
    (unapplied : ∀ request result i, AppliedAt zoneInfo commands owner request result i →
      request.requestId ≠ r) :
    (reached zoneInfo commands).commands.find? (owner, r) = none := by
  rw [← not_answered_iff]
  intro answered
  obtain ⟨i, command, hcommand, request, result, hid, applies⟩ := exists_firesAt
    (storeOk_empty zoneInfo) storeOk_step (not_answered_iff.mpr rfl)
    (fun _ _ _ answered => Answered.before answered) answered
  exact unapplied request result i ⟨command, hcommand, applies⟩ hid

end

/-- Over every run, for every owner. -/
theorem reached_exactlyOnce (zoneInfo : String → Zone) (commands : List Command) (owner : UUID) :
    ExactlyOnce zoneInfo commands owner := by
  have ok := storeOk_reached zoneInfo commands
  refine ⟨fun request request' result result' i j same hi hj => hi.unique same hj,
    fun request result i applied drawn now stamp => applied.receipted.resent ok,
    fun request result i applied request' same other existing drawn now stamp =>
      applied.receipted.conflict ok same other existing,
    fun request drawn now stamp result store' h hreplayed => ?_,
    fun request drawn now stamp error h => ?_,
    fun r r' unapplied request drawn now stamp => attempt_unanswered
      (unanswered_of_unapplied fun request result i applied =>
        (unapplied request result i applied).1)
      (unanswered_of_unapplied fun request result i applied =>
        (unapplied request result i applied).2)⟩
  · rcases attempt_ok h with ⟨-, hstore⟩ | ⟨hnew, -⟩
    · exact hstore
    · rw [hnew] at hreplayed
      contradiction
  · unfold step
    rw [perform_command, h]
    rfl

/-- The essay was moved after its save; the save is still answered, as the first
version. -/
theorem reached_exactlyOnce_essay :
    ∃ schedule, view (reached (fun _ => Zone.utc) essayRun) 1 7 = .ok schedule ∧
      attempt (fun _ => Zone.utc) (reached (fun _ => Zone.utc) essayRun) 1 9 (lectureTime 900) 0
        (.create ⟨essayCandidate earlyEssay rfl [] noEvents_few, 10⟩) =
        .ok (⟨schedule, true, 1⟩, reached (fun _ => Zone.utc) essayRun) := by
  have saved : okAnd (attempt (fun _ => Zone.utc) (reached (fun _ => Zone.utc) (essayRun.take 2))
      1 7 (lectureTime 480) 0 (.create ⟨essayCandidate earlyEssay rfl [] noEvents_few, 10⟩))
      (fun answer => !answer.1.replayed && decide (answer.1.appliedVersion = 1) &&
        decide (answer.1.schedule.id = 7)) = true := by
    decide +kernel
  obtain ⟨⟨result, store'⟩, h, htrue⟩ := exists_of_okAnd saved
  simp only [Bool.and_eq_true, Bool.not_eq_true', decide_eq_true_eq] at htrue
  obtain ⟨⟨hnew, happlied⟩, hid⟩ := htrue
  have resent := (reached_exactlyOnce (fun _ => Zone.utc) essayRun 1).resent _ result 2
    ⟨_, rfl, 7, lectureTime 480, 0, store', rfl, h, hnew⟩ 9 (lectureTime 900) 0
  rw [hid, happlied] at resent
  exact resent

end SmartPlanner
