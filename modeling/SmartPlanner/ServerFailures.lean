import SmartPlanner.OnlyRefusals
import SmartPlanner.ServerLimits

/-!
No internal errors. Over any run of the server an answer that is an error is one
of the application's own: a validated request fails in no other way, as long as
what it draws is free, its titles and years are supported and its length can be
read as a number.
-/

namespace SmartPlanner

open Outcome Runs Sessions Tables Unwinding

def Operation.Ready (zoneInfo : String → Zone) (store : Store) : Operation → Prop
  | .command write => write.Ready zoneInfo store
  | .query _ read => read.Ready

/-- `int` reads every `Content-Length` that consists of digits. -/
def RequestHead.Readable (head : RequestHead) : Prop :=
  ∀ length ∈ head.contentLength, HeaderDigits length → IntReads length

instance (head : RequestHead) : Decidable head.Readable := by
  unfold RequestHead.Readable
  infer_instance

/-- What the work of a request relies on besides the tables: what it draws is free,
and its titles and the years it plans for are supported. -/
def Work.Ready (sha256 : String → String) (zoneInfo : String → Zone) (server : Server) :
    Work → Prop
  | .register data draws =>
      (Command.register draws.id data.email data.timezone draws.stamp).Ready zoneInfo server.store
  | .login _ _ draws => ∀ row ∈ server.sessions.rows,
      row.tokenDigest ≠ tokenDigest sha256 draws.token
  | .logout .. => True
  | .preview user data _ => PageSupported zoneInfo server.store user data
  | .call user endpoint draws => (endpoint.operation user.id draws).Ready zoneInfo server.store

/-- The account that a call is made for. -/
def Work.Known (store : Store) : Work → Prop
  | .call user _ _ => user ∈ store.users
  | _ => True

variable {config : Settings} {sha256 : String → String} {hasher : Hasher}
  {zoneInfo : String → Zone} {server : Server} {events : List ServerEvent}

theorem answer_refuses {store : Store} {operation : Operation}
    (readable : Readable zoneInfo store) (ready : operation.Ready zoneInfo store)
    (registered : ∀ command, operation = .command command → command.Registered store) :
    Raises Refusal (answer zoneInfo store operation) := by
  cases operation with
  | query owner query => exact raises_map (answerQuery_refuses readable owner ready)
  | command command => exact answerCommand_refuses readable ready (registered command rfl)

/-- A call acts for the account it was made for. -/
theorem Endpoint.registered {store : Store} {user : UserRow} (known : user ∈ store.users)
    {endpoint : Endpoint} {draws : Draws} {command : Command}
    (h : endpoint.operation user.id draws = .command command) : command.Registered store := by
  have named : ∃ found ∈ store.users, found.id = user.id := ⟨user, known, rfl⟩
  cases endpoint <;> cases h <;> exact named

/-- The operations of a run leave what its commands leave. -/
theorem service_final_reached (operations : List Operation) :
    ∃ commands, (service zoneInfo).final Store.empty operations = reached zoneInfo commands := by
  induction operations using List.reverseRecOn with
  | nil => exact ⟨[], rfl⟩
  | append_singleton operations operation ih =>
      obtain ⟨commands, ih⟩ := ih
      unfold Machine.final at ih ⊢
      rw [run_snoc, ih]
      cases operation with
      | query owner query => exact ⟨commands, service_next_query owner query⟩
      | command command =>
          refine ⟨commands ++ [command], ?_⟩
          rw [service_next_command]
          unfold SmartPlanner.reached
          rw [run_snoc]

theorem readable_server (events : List ServerEvent) :
    Readable zoneInfo (Server.reached config sha256 hasher zoneInfo events).store.store := by
  rw [store_reached]
  obtain ⟨commands, h⟩ := @service_final_reached zoneInfo
    (operations config sha256 hasher zoneInfo events)
  rw [h]
  exact readable_reached zoneInfo commands

/-- The account of a call that is under way exists. -/
theorem pending_known {client : ℕ} {work : Work}
    (h : (Server.reached config sha256 hasher zoneInfo events).pending client = some work) :
    work.Known (Server.reached config sha256 hasher zoneInfo events).store.store := by
  cases work with
  | call user endpoint draws =>
      obtain ⟨before, request, later, rfl, -, hstart⟩ := Protocol.pending_started h
      obtain ⟨-, -, -, token, huser⟩ := Server.start_waiting hstart
      obtain ⟨-, -, hsession, -⟩ := Server.currentUser_ok huser
      obtain ⟨row, -, -, -, hmem, -⟩ := Accounts.sessionUser_ok.mp hsession
      exact users_reached hmem
  | _ => trivial

namespace Server

theorem admitPassword_failed {request : HttpRequest} {work : Work} {error : PyError}
    (h : (server.admitPassword request work).1 = .inl (.failed error)) : Refusal error := by
  obtain ⟨-, -, ⟨-, -, limited⟩ | ⟨-, -, -, busy⟩ | ⟨-, -, admitted⟩⟩ :=
    @admitPassword_cases server request work
  · rw [limited] at h
    cases h
    exact refusal _
  · rw [busy] at h
    cases h
  · rw [admitted] at h
    cases h

theorem admitPreview_failed {work : Work} {error : PyError}
    (h : (server.admitPreview work).1 = .inl (.failed error)) : Refusal error := by
  unfold admitPreview at h
  split at h
  · cases h
    exact refusal _
  · cases h

/-- Only a length that `int` cannot read makes the middleware raise. -/
theorem originAndSize_raised {request : HttpRequest} {error : PyError}
    (h : originAndSize config request = .error (.raised error)) : ¬ request.head.Readable := by
  unfold originAndSize at h
  split at h
  · rcases bind_error.mp h with h | ⟨-, -, h⟩
    · cases (raiseIf_error.mp h).2
    · split at h
      · cases h
      · next length hlength =>
          intro readable
          rcases bind_error.mp h with h | ⟨passed, hdigits, h⟩
          · cases (raiseIf_error.mp h).2
          · rw [raiseIf_ok, not_not] at hdigits
            rcases bind_error.mp h with h | ⟨-, -, h⟩
            · exact (raiseIf_error.mp h).1 (readable length hlength hdigits)
            · cases (raiseIf_error.mp h).2
  · cases h

theorem start_failed {request : HttpRequest} {error : PyError} (readable : request.head.Readable)
    (h : (server.start config sha256 request).1 = .inl (.failed error)) : Refusal error := by
  unfold start at h
  split at h
  · cases h
  · next hraised => exact absurd readable (originAndSize_raised hraised)
  · split at h
    · exact admitPassword_failed h
    · exact admitPassword_failed h
    · split at h
      · cases h
      · split at h
        · cases h
        · exact admitPreview_failed h
        · cases h
        · cases h
        · cases h

/-- A session can be made for a token that no session has. -/
theorem login_failed {account : Option (UserRow × String)} {password : String} {draws : Draws}
    {error : PyError}
    (free : ∀ row ∈ server.sessions.rows, row.tokenDigest ≠ tokenDigest sha256 draws.token) :
    (server.login config sha256 hasher account password draws).1 ≠ .failed error := by
  unfold login
  split
  · next user encoded hverified =>
      have made : ∃ made, server.createSession sha256 user.id config.sessionHours draws.token
          draws.stamp draws.now = .ok made := by
        unfold Accounts.createSession
        obtain ⟨sessions, hsessions⟩ : ∃ sessions, insertRow (server.sessions.delete fun row =>
            row.userId = user.id && row.expiresAt ≤ draws.stamp)
            ⟨tokenDigest sha256 draws.token, user.id,
              draws.now + config.sessionHours * hour⟩ = .ok sessions :=
          insertRow_total fun row hrow => free row (Table.mem_delete.mp hrow).1
        simp only
        rw [hsessions]
        exact ⟨_, rfl⟩
      obtain ⟨made, hmade⟩ := made
      rw [hmade]
      nofun
  · nofun

theorem work_failed {work : Work} {error : PyError} (readable : Readable zoneInfo server.store)
    (known : work.Known server.store) (ready : work.Ready sha256 zoneInfo server)
    (h : (server.work config sha256 hasher zoneInfo work).1 = .failed error) : Refusal error := by
  cases work with
  | register data draws =>
      simp only [Server.work] at h
      split at h
      · cases h
      · next failed hfailed =>
          cases h
          exact Repository.register_refuses readable.references ready data.email data.timezone
            draws.stamp error (Accounts.register_error hfailed)
  | login account password draws => exact absurd h (login_failed ready)
  | logout token draws => cases h
  | preview user data draws =>
      simp only [Server.work] at h
      split at h
      · cases h
      · next failed hfailed =>
          cases h
          exact raises_previewSchedule readable.ok.sources ready error hfailed
  | call user endpoint draws =>
      simp only [Server.work] at h
      split at h
      · cases h
      · split at h
        · cases h
        · next failed hfailed =>
            cases h
            refine answer_refuses readable ready (fun command hcommand => ?_) error hfailed
            exact endpoint.registered known hcommand

end Server

/-- Over any run, an answer that reports an error reports an application error, for
every validated request whose draws are free, whose titles and years are supported
and whose length is readable. -/
theorem answers_refuse {event : ServerEvent} {error : PyError}
    (readable : ∀ client request, event = .start client request → request.head.Readable)
    (ready : ∀ client work, event = .finish client →
      (Server.reached config sha256 hasher zoneInfo events).pending client = some work →
        work.Ready sha256 zoneInfo (Server.reached config sha256 hasher zoneInfo events).store)
    (answered : (Server.protocol config sha256 hasher zoneInfo).answer
      (Server.reached config sha256 hasher zoneInfo events) event = some (.failed error)) :
    ∃ refused, error = .app refused := by
  rcases Protocol.answer_eq_some.mp answered with
    ⟨client, request, server, rfl, -, hstart⟩ | ⟨client, work, rfl, hpending, hfinish⟩
  · have failed : ((Server.reached config sha256 hasher zoneInfo events).store.start config sha256
        request).1 = .inl (.failed error) := congrArg Prod.fst hstart
    exact Server.start_failed (readable client request rfl) failed
  · exact Server.work_failed (readable_server events) (pending_known hpending)
      (ready client work rfl hpending) hfinish

/-- A second registration of an email, before its work is done. -/
def registerTwiceRun (passwordHash : String) : List ServerEvent :=
  let head : RequestHead := ⟨none, none, some "127.0.0.1", none, none⟩
  let credentials : Credentials := ⟨"a@example.org", "battery staple", by decide⟩
  let draws (n : Nat) : Draws := ⟨n, n, n, n, n, fun _ => (2, 3), "", passwordHash⟩
  [.start 0 ⟨head, .register ⟨credentials, "UTC"⟩, draws 1⟩, .finish 0,
    .start 0 ⟨head, .register ⟨credentials, "UTC"⟩, draws 2⟩]

theorem answers_refuse_registerTwice :
    let config : Settings := ⟨"http://localhost:8000", 24, 10, by decide⟩
    let hasher : Hasher := ⟨fun password encoded => "$" ++ password = encoded, "$"⟩
    ∃ error, (Server.protocol config id hasher (fun _ => .utc)).answer
        (Server.reached config id hasher (fun _ => .utc) (registerTwiceRun "$battery staple"))
        (.finish 0) = some (.failed error) ∧
      ∃ refused, error = .app refused := by
  intro config hasher
  obtain ⟨state, hstate⟩ : ∃ state, state = Server.reached config id hasher (fun _ => .utc)
    (registerTwiceRun "$battery staple") := ⟨_, rfl⟩
  have free : (state.pending 0).any (fun work => match work with
      | .register _ draws => decide (∀ row ∈ state.store.store.users.rows, row.id ≠ draws.id)
      | _ => false) = true := by
    rw [hstate]
    decide +kernel
  have failed : ((Server.protocol config id hasher (fun _ => .utc)).answer state (.finish 0)).any
      (fun reply => match reply with
        | .failed _ => true
        | _ => false) = true := by
    rw [hstate]
    decide +kernel
  obtain ⟨reply, hreply, hfailed⟩ := (Option.any_eq_true ..).mp failed
  cases reply with
  | failed error =>
      rw [hstate] at hreply
      refine ⟨error, hreply, answers_refuse (fun client request hevent => by cases hevent)
        (fun client work hevent hpending => ?_) hreply⟩
      cases hevent
      rw [← hstate] at hpending ⊢
      rw [hpending, Option.any_some] at free
      cases work with
      | register data draws =>
          have taken := of_decide_eq_true free
          exact taken
      | _ => contradiction
  | _ => contradiction

end SmartPlanner
