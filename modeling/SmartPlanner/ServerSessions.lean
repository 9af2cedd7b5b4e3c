import SmartPlanner.Server
import SmartPlanner.StoreInvariant

/-!
Who may act through the server. Over any run of requests, in any order and with
any number of them under way, the session table is a table of leases: a token is
accepted for an account exactly when a login issued it for that account, it was
not signed out since, and it has not expired. Every operation that reaches the
repositories was sent with such a token.
-/

namespace SmartPlanner

open Leases Outcome Runs Sessions Tables

abbrev ServerEvent := Event HttpRequest Empty

section
variable (config : Settings) (sha256 : String → String) (hasher : Hasher)
  (zoneInfo : String → Zone)

/-- The server after some events, from the migrated database. -/
def Server.reached (events : List ServerEvent) : State Server Work :=
  (Server.protocol config sha256 hasher zoneInfo).reached (.new config) events

/-- The session that a completed login starts. -/
def sessionOf (user : UserRow) (draws : Draws) : SessionRow :=
  ⟨tokenDigest sha256 draws.token, user.id, draws.now + config.sessionHours * hour⟩

/-- What the work of a request does to the session table. -/
def Work.sessionActs (server : Server) : Work → List (Act SessionRow String Int)
  | .login (some (user, encoded)) password draws =>
      match (server.login config sha256 hasher (some (user, encoded)) password draws).1 with
      | .signedIn .. => [.purge (fun row => row.userId = user.id) draws.stamp,
          .grant (sessionOf config sha256 user draws)]
      | _ => []
  | .logout token _ => [.revoke (tokenDigest sha256 token)]
  | _ => []

/-- The operation of the repositories that the work of a request runs. -/
def Work.operations : Work → List Operation
  | .register data draws =>
      [.command (.register draws.id data.email data.timezone draws.stamp)]
  | .call user endpoint draws =>
      if endpoint.rangeRejected then [] else [endpoint.operation user.id draws]
  | _ => []

/-- What an event of the server emits when it completes a request. -/
def completing {ω : Type} (emit : Server → Work → List ω) (state : State Server Work) :
    ServerEvent → List ω
  | .finish client => (state.pending client).elim [] (emit state.store)
  | _ => []

/-- The acts on the session table in a run. -/
def sessionActs (events : List ServerEvent) : List (Act SessionRow String Int) :=
  trace (Server.protocol config sha256 hasher zoneInfo).next
    (completing (Work.sessionActs config sha256 hasher)) (.idle (.new config)) events

/-- The operations of the repositories in a run. -/
def operations (events : List ServerEvent) : List Operation :=
  trace (Server.protocol config sha256 hasher zoneInfo).next
    (completing fun _ work => work.operations) (.idle (.new config)) events

/-- The event completes a login of the account: its password was verified, and the
answer carries the token of the session. -/
def SignsIn (state : State Server Work) (event : ServerEvent) (user : UserRow)
    (row : SessionRow) : Prop :=
  ∃ client encoded password draws, event = .finish client ∧
    state.pending client = some (.login (some (user, encoded)) password draws) ∧
    hasher.verify password encoded = true ∧
    (Server.protocol config sha256 hasher zoneInfo).answer state event =
      some (.signedIn user draws.token (csrfForToken sha256 draws.token)) ∧
    row = sessionOf config sha256 user draws

/-- The event signs out a token with this digest. -/
def SignsOut (state : State Server Work) (event : ServerEvent) (digest : String) : Prop :=
  ∃ client token draws, event = .finish client ∧
    state.pending client = some (.logout token draws) ∧ tokenDigest sha256 token = digest

/-- A login of the account started the session, and nothing signed it out since. -/
def SignedIn (events : List ServerEvent) (user : UserRow) (row : SessionRow) : Prop :=
  ∃ before event later, events = before ++ event :: later ∧
    SignsIn config sha256 hasher zoneInfo (Server.reached config sha256 hasher zoneInfo before)
      event user row ∧
    ∀ middle other rest, later = middle ++ other :: rest →
      ¬ SignsOut sha256 (Server.reached config sha256 hasher zoneInfo (before ++ event :: middle))
        other row.tokenDigest

/-- No login of the run was completed after the instant. -/
def LoginsBefore (events : List ServerEvent) (now : Int) : Prop :=
  ∀ before client later account password draws, events = before ++ .finish client :: later →
    (Server.reached config sha256 hasher zoneInfo before).pending client =
      some (.login account password draws) → draws.stamp ≤ now

end

variable {config : Settings} {sha256 : String → String} {hasher : Hasher}
  {zoneInfo : String → Zone} {server server' : Server} {events : List ServerEvent}

namespace Server

/-- The first step of a request reads the tables only. -/
theorem start_accounts (request : HttpRequest) :
    (server.start config sha256 request).2.toAccounts = server.toAccounts := by
  have guarded : ∀ work, (server.admitPassword request work).2.toAccounts = server.toAccounts := by
    intro work
    unfold admitPassword
    split
    · rfl
    · split <;> rfl
  have plan : ∀ work, (server.admitPreview work).2.toAccounts = server.toAccounts := by
    intro work
    unfold admitPreview
    split <;> rfl
  unfold start
  split
  · rfl
  · rfl
  · split
    · exact guarded _
    · exact guarded _
    · split
      · rfl
      · split
        · rfl
        · exact plan _
        · rfl
        · rfl
        · rfl

/-- A login that succeeds, and the session it adds. -/
theorem login_signedIn {account : Option (UserRow × String)} {password token csrf : String}
    {draws : Draws} {user : UserRow}
    (h : server.login config sha256 hasher account password draws =
      (.signedIn user token csrf, server')) :
    ∃ encoded, account = some (user, encoded) ∧ hasher.verify password encoded = true ∧
      token = draws.token ∧ csrf = csrfForToken sha256 draws.token ∧
      server.createSession sha256 user.id config.sessionHours draws.token draws.stamp draws.now =
        .ok server'.toAccounts ∧ server'.limiter = server.limiter := by
  unfold login at h
  split at h
  · next found encoded hverified =>
      rw [Hasher.check, Bool.and_eq_true] at hverified
      split at h
      · next accounts haccounts =>
          rw [Prod.mk.injEq, HttpReply.signedIn.injEq] at h
          obtain ⟨⟨rfl, rfl, rfl⟩, rfl⟩ := h
          exact ⟨encoded, rfl, hverified.1, rfl, rfl, haccounts, rfl⟩
      · cases h
  · cases h

/-- A login that does not succeed changes nothing. -/
theorem login_other {account : Option (UserRow × String)} {password : String} {draws : Draws}
    (h : ∀ user token csrf,
      (server.login config sha256 hasher account password draws).1 ≠ .signedIn user token csrf) :
    (server.login config sha256 hasher account password draws).2 = server := by
  unfold login at h ⊢
  split
  · next found encoded hverified =>
      rw [hverified] at h
      dsimp only at h
      split
      · next accounts haccounts =>
          rw [haccounts] at h
          exact absurd rfl (h _ _ _)
      · rfl
  · rfl

/-- What the work of a request does to the session table. -/
theorem work_sessions (entry : Work) :
    (server.work config sha256 hasher zoneInfo entry).2.sessions =
      run (Leases.perform SessionRow.expiresAt) server.sessions
        (entry.sessionActs config sha256 hasher server) := by
  cases entry with
  | register data draws =>
      simp only [work, Work.sessionActs, run_nil]
      split
      · next h => exact (Accounts.register_ok h).2
      · rfl
  | login account password draws =>
      simp only [work]
      cases account with
      | none => rfl
      | some account =>
          obtain ⟨user, encoded⟩ := account
          simp only [Work.sessionActs]
          split
          · next signedUser token csrf h =>
              obtain ⟨found, haccount, -, -, -, hmade, -⟩ := login_signedIn (Prod.ext h rfl)
              rw [Option.some.injEq, Prod.mk.injEq] at haccount
              obtain ⟨rfl, rfl⟩ := haccount
              unfold Accounts.createSession at hmade
              simp only [bind_ok, pure_eq_ok, Except.ok.injEq, insertRow_ok] at hmade
              obtain ⟨sessions, hinsert, hsessions⟩ := hmade
              rw [← hsessions]
              change sessions = Leases.perform SessionRow.expiresAt
                (Leases.perform SessionRow.expiresAt server.sessions (.purge _ _)) (.grant _)
              simp only [Leases.perform, sessionOf, hinsert, Option.getD_some]
          · next hother =>
              rw [login_other (fun user token csrf h => hother user token csrf h), run_nil]
  | logout token draws => rfl
  | preview user data draws =>
      simp only [work, Work.sessionActs, run_nil]
      split <;> rfl
  | call user endpoint draws =>
      simp only [work, Work.sessionActs, run_nil]
      split
      · rfl
      · split <;> rfl

/-- What the work of a request does to the planning tables. -/
theorem work_store (entry : Work) :
    (server.work config sha256 hasher zoneInfo entry).2.store =
      (service zoneInfo).final server.store entry.operations := by
  cases entry with
  | register data draws =>
      have hnext : (service zoneInfo).final server.store (Work.register data draws).operations =
        step zoneInfo server.store (.register draws.id data.email data.timezone draws.stamp) :=
        service_next_command _
      rw [hnext]
      simp only [work, step, SmartPlanner.perform]
      cases h : server.register data draws.passwordHash draws.id draws.stamp with
      | ok made => rw [(Accounts.register_ok h).1]; rfl
      | error error => rw [Accounts.register_error h]; rfl
  | login account password draws =>
      simp only [work]
      change _ = server.store
      cases hlogin : server.login config sha256 hasher account password draws with
      | mk reply after =>
          cases reply with
          | signedIn user token csrf =>
              obtain ⟨-, -, -, -, -, hmade, -⟩ := login_signedIn hlogin
              unfold Accounts.createSession at hmade
              simp only [bind_ok, pure_eq_ok, Except.ok.injEq] at hmade
              obtain ⟨sessions, -, hsessions⟩ := hmade
              rw [← hsessions]
          | _ =>
              have hsame : (server.login config sha256 hasher account password draws).2 = server :=
                login_other (by rw [hlogin]; nofun)
              rw [hlogin] at hsame
              rw [hsame]
  | logout token draws => rfl
  | preview user data draws =>
      simp only [work]
      split <;> rfl
  | call user endpoint draws =>
      simp only [work, Work.operations]
      split
      · rfl
      · change _ = (service zoneInfo).next server.store (endpoint.operation user.id draws)
        unfold Unwinding.Machine.next service
        dsimp only
        cases answer zoneInfo server.store (endpoint.operation user.id draws) <;> rfl

/-- Giving a slot back leaves the tables alone. -/
theorem finish_accounts (entry : Work) :
    (server.finish config sha256 hasher zoneInfo entry).2.toAccounts =
      (server.work config sha256 hasher zoneInfo entry).2.toAccounts := by
  cases entry <;> rfl

end Server

/-- The parts of the state that only completed requests change, over one event. -/
theorem next_completing {ω β : Type} {emit : Server → Work → List ω} {part : Server → β}
    {perform : β → ω → β} (state : State Server Work) (event : ServerEvent)
    (starts : ∀ server request, part (server.start config sha256 request).2 = part server)
    (finishes : ∀ server work, part (server.finish config sha256 hasher zoneInfo work).2 =
      run perform (part server) (emit server work)) :
    part ((Server.protocol config sha256 hasher zoneInfo).next state event).store =
      run perform (part state.store) (completing emit state event) := by
  cases event with
  | start client request =>
      cases hclient : state.pending client with
      | some work => rw [Protocol.next_busy hclient]; rfl
      | none =>
          have hstart := starts state.store request
          rcases h : (Server.protocol config sha256 hasher zoneInfo).start state.store request with
            ⟨reply | work, after⟩ <;> change Server.start config sha256 state.store request = _ at h
          · rw [Protocol.next_answered hclient h]
            rw [h] at hstart
            exact hstart
          · rw [Protocol.next_waiting hclient h]
            rw [h] at hstart
            exact hstart
  | finish client =>
      cases hclient : state.pending client with
      | none =>
          rw [Protocol.next_free hclient, completing, hclient]
          rfl
      | some work =>
          rw [Protocol.next_finish hclient, completing, hclient]
          exact finishes state.store work
  | other command => exact nomatch command

/-- The same over a run. -/
theorem reached_completing {ω β : Type} {emit : Server → Work → List ω} (part : Server → β)
    {perform : β → ω → β}
    (starts : ∀ server request, part (server.start config sha256 request).2 = part server)
    (finishes : ∀ server work, part (server.finish config sha256 hasher zoneInfo work).2 =
      run perform (part server) (emit server work)) (events : List ServerEvent) :
    part (Server.reached config sha256 hasher zoneInfo events).store =
      run perform (part (.new config)) (trace (Server.protocol config sha256 hasher zoneInfo).next
        (completing emit) (.idle (.new config)) events) := by
  induction events using List.reverseRecOn with
  | nil => rfl
  | append_singleton events event ih =>
      rw [trace_snoc, run_append, ← ih]
      unfold Server.reached
      rw [Protocol.reached_snoc]
      exact next_completing _ event starts finishes

/-- The session table is a table of leases. -/
theorem sessions_reached (events : List ServerEvent) :
    (Server.reached config sha256 hasher zoneInfo events).store.sessions =
      after SessionRow.tokenDigest SessionRow.expiresAt
        (sessionActs config sha256 hasher zoneInfo events) :=
  reached_completing (fun server => server.sessions)
    (fun _ request => by rw [Server.start_accounts request])
    (fun _ entry => by rw [Server.finish_accounts, Server.work_sessions]) events

/-- The planning tables are those of the operations that were run. -/
theorem store_reached (events : List ServerEvent) :
    (Server.reached config sha256 hasher zoneInfo events).store.store =
      (service zoneInfo).final Store.empty (operations config sha256 hasher zoneInfo events) :=
  reached_completing (fun server => server.store)
    (fun _ request => by rw [Server.start_accounts request])
    (fun _ entry => (congrArg Accounts.store (Server.finish_accounts entry)).trans
      (Server.work_store entry)) events

namespace Server

/-- What the first step of a request has found when it leaves the work. -/
def Admitted (server : Server) (sha256 : String → String) (request : HttpRequest) : Work → Prop
  | .register data draws => request.route = .register data ∧ request.draws = draws
  | .login account password draws => ∃ data, request.route = .login data ∧
      request.draws = draws ∧ data.password = password ∧
      server.accountForLogin data.email = account
  | .logout token draws => request.route = .logout ∧ request.draws = draws ∧
      ∃ user, server.currentUser sha256 request = .ok (token, user)
  | .preview user data draws => request.route = .previewSchedule data ∧ request.draws = draws ∧
      ∃ token, server.currentUser sha256 request = .ok (token, user)
  | .call user endpoint draws => request.route = .call endpoint ∧ request.draws = draws ∧
      ∃ token, server.currentUser sha256 request = .ok (token, user)

theorem admitPassword_waiting {request : HttpRequest} {work left : Work}
    (h : (server.admitPassword request work).1 = .inr left) : left = work := by
  unfold admitPassword at h
  split at h
  · contradiction
  · split at h
    · contradiction
    · exact (Sum.inr.inj h).symm

theorem admitPreview_waiting {work left : Work}
    (h : (server.admitPreview work).1 = .inr left) : left = work := by
  unfold admitPreview at h
  split at h
  · contradiction
  · exact (Sum.inr.inj h).symm

theorem start_waiting {request : HttpRequest} {work : Work}
    (h : (server.start config sha256 request).1 = .inr work) :
    originAndSize config request = .ok () ∧ server.Admitted sha256 request work := by
  unfold start at h
  split at h
  · contradiction
  · contradiction
  · next hgate =>
      refine ⟨hgate, ?_⟩
      split at h
      · next data hroute =>
          rw [admitPassword_waiting h]
          exact ⟨hroute, rfl⟩
      · next data hroute =>
          rw [admitPassword_waiting h]
          exact ⟨data, hroute, rfl, rfl, rfl⟩
      · next route hregister hlogin =>
          split at h
          · contradiction
          · next token user huser =>
              split at h
              · next hroute =>
                  rw [← Sum.inr.inj h]
                  exact ⟨hroute, rfl, user, huser⟩
              · next data hroute =>
                  rw [admitPreview_waiting h]
                  exact ⟨hroute, rfl, token, huser⟩
              · next endpoint hroute =>
                  rw [← Sum.inr.inj h]
                  exact ⟨hroute, rfl, token, huser⟩
              · contradiction
              · contradiction

theorem currentUser_ok {request : HttpRequest} {token : String} {user : UserRow}
    (h : server.currentUser sha256 request = .ok (token, user)) :
    request.head.cookie = some token ∧ TokenFormat token ∧
      server.sessionUser sha256 token request.draws.arrival = .ok user ∧
      (request.route.method.writes = true →
        request.head.csrfToken = some (csrfForToken sha256 token)) := by
  unfold currentUser sessionToken at h
  simp only [bind_ok, raiseIf_ok, pure_eq_ok, Except.ok.injEq, Prod.mk.injEq] at h
  obtain ⟨found, hfound, seen, hseen, -, hcsrf, rfl, rfl⟩ := h
  split at hfound
  · next hformat =>
      rw [Except.ok.injEq] at hfound
      subst hfound
      refine ⟨?_, hformat, hseen, fun writes => ?_⟩
      · cases hcookie : request.head.cookie with
        | some cookie => rfl
        | none =>
            rw [hcookie] at hformat
            exact absurd hformat.1 (by decide)
      · cases hsupplied : request.head.csrfToken with
        | some supplied =>
            by_contra hne
            exact hcsrf ⟨writes, fun h => hne (by rw [← h.2, hsupplied]; rfl)⟩
        | none => exact absurd ⟨writes, fun h => absurd h.1.1 (by rw [hsupplied]; decide)⟩ hcsrf
  · contradiction

end Server

/-- No account disappears. -/
theorem service_users {store : Store} (operation : Operation) {user : UserRow}
    (h : user ∈ store.users) : user ∈ ((service zoneInfo).next store operation).users := by
  cases operation with
  | query owner query => rwa [service_next_query]
  | command command =>
      rw [service_next_command]
      cases step_transition store command with
      | sources grow => exact grow.users user h
      | created created => exact created.commit.evolve.users user h
      | replaced replaced => exact replaced.commit.evolve.users user h
      | travelled travelled => exact travelled.commit.evolve.users user h

theorem users_reached {before later : List ServerEvent} {user : UserRow}
    (h : user ∈ (Server.reached config sha256 hasher zoneInfo before).store.store.users) :
    user ∈ (Server.reached config sha256 hasher zoneInfo (before ++ later)).store.store.users := by
  rw [store_reached] at h ⊢
  unfold operations Unwinding.Machine.final at h ⊢
  rw [trace_append, run_append]
  exact run_invariant (I := fun store : Store => user ∈ store.users) h
    (fun _ operation => service_users operation) _

/-- The account of a login that is under way exists. -/
theorem login_user {client : ℕ} {user : UserRow} {encoded password : String} {draws : Draws}
    (h : (Server.reached config sha256 hasher zoneInfo events).pending client =
      some (.login (some (user, encoded)) password draws)) :
    user ∈ (Server.reached config sha256 hasher zoneInfo events).store.store.users := by
  obtain ⟨before, request, later, rfl, -, hstart⟩ := Protocol.pending_started h
  obtain ⟨-, data, -, -, -, haccount⟩ := Server.start_waiting hstart
  exact users_reached (Accounts.accountForLogin_eq_some haccount).1

section
variable {state : State Server Work} {event : ServerEvent} {user : UserRow} {row : SessionRow}

/-- A completed login drops sessions of the account and adds one under a free
digest. -/
theorem SignsIn.acts (h : SignsIn config sha256 hasher zoneInfo state event user row) :
    ∃ drop : Act SessionRow String Int,
      completing (Work.sessionActs config sha256 hasher) state event = [drop, .grant row] ∧
      ∀ other ∈ Leases.perform SessionRow.expiresAt state.store.sessions drop,
        other.tokenDigest ≠ row.tokenDigest := by
  obtain ⟨client, encoded, password, draws, rfl, hpending, -, hanswer, rfl⟩ := h
  rw [Protocol.answer, hpending, Option.map_some, Option.some.injEq] at hanswer
  change (state.store.login config sha256 hasher _ password draws).1 = _ at hanswer
  refine ⟨.purge (fun row => row.userId = user.id) draws.stamp, ?_, ?_⟩
  · rw [completing, hpending, Option.elim_some, Work.sessionActs, hanswer]
  · obtain ⟨-, -, -, -, -, hmade, -⟩ := Server.login_signedIn (Prod.ext hanswer rfl)
    unfold Accounts.createSession at hmade
    simp only [bind_ok, pure_eq_ok, Except.ok.injEq, insertRow_ok] at hmade
    obtain ⟨sessions, hinsert, -⟩ := hmade
    exact (Table.insert?_eq_some hinsert).1

theorem grant_mem_completing
    (h : .grant row ∈ completing (Work.sessionActs config sha256 hasher) state event) :
    ∃ user, SignsIn config sha256 hasher zoneInfo state event user row := by
  cases event with
  | start client request => contradiction
  | other command => contradiction
  | finish client =>
      rw [completing] at h
      cases hpending : state.pending client with
      | none =>
          rw [hpending] at h
          contradiction
      | some work =>
          rw [hpending, Option.elim_some] at h
          cases work with
          | login account password draws =>
              cases account with
              | none => contradiction
              | some account =>
                  obtain ⟨user, encoded⟩ := account
                  rw [Work.sessionActs] at h
                  split at h
                  · next signedUser token csrf hreply =>
                      obtain ⟨found, haccount, hverified, rfl, rfl, -⟩ :=
                        Server.login_signedIn (Prod.ext hreply rfl)
                      rw [Option.some.injEq, Prod.mk.injEq] at haccount
                      obtain ⟨rfl, rfl⟩ := haccount
                      refine ⟨user, client, encoded, password, draws, rfl, hpending, hverified,
                        ?_, by simpa using h⟩
                      rw [Protocol.answer, hpending, Option.map_some]
                      exact congrArg some hreply
                  · contradiction
          | logout token draws => simp [Work.sessionActs] at h
          | _ => contradiction

theorem revoke_mem_completing {digest : String} :
    .revoke digest ∈ completing (Work.sessionActs config sha256 hasher) state event ↔
      SignsOut sha256 state event digest := by
  constructor
  · intro h
    cases event with
    | start client request => contradiction
    | other command => contradiction
    | finish client =>
        rw [completing] at h
        cases hpending : state.pending client with
        | none =>
            rw [hpending] at h
            contradiction
        | some work =>
            rw [hpending, Option.elim_some] at h
            cases work with
            | logout token draws =>
                rw [Work.sessionActs, List.mem_singleton, Act.revoke.injEq] at h
                exact ⟨client, token, draws, rfl, hpending, h.symm⟩
            | login account password draws =>
                cases account with
                | none => contradiction
                | some account =>
                    rw [Work.sessionActs] at h
                    split at h <;> simp at h
            | _ => contradiction
  · rintro ⟨client, token, draws, rfl, hpending, rfl⟩
    rw [completing, hpending]
    exact List.mem_singleton_self _

theorem purge_mem_completing {p : SessionRow → Bool} {stamp : Int}
    (h : .purge p stamp ∈ completing (Work.sessionActs config sha256 hasher) state event) :
    ∃ client account password draws, event = .finish client ∧
      state.pending client = some (.login account password draws) ∧ stamp = draws.stamp := by
  cases event with
  | start client request => contradiction
  | other command => contradiction
  | finish client =>
      rw [completing] at h
      cases hpending : state.pending client with
      | none =>
          rw [hpending] at h
          contradiction
      | some work =>
          rw [hpending, Option.elim_some] at h
          cases work with
          | login account password draws =>
              refine ⟨client, account, password, draws, rfl, hpending, ?_⟩
              cases account with
              | none => contradiction
              | some account =>
                  rw [Work.sessionActs] at h
                  split at h
                  · simp only [List.mem_cons, Act.purge.injEq, List.not_mem_nil, or_false,
                      reduceCtorEq] at h
                    exact h.2
                  · contradiction
          | logout token draws => simp [Work.sessionActs] at h
          | _ => contradiction

/-- The sessions of a run are the leases that its logins grant and its logouts
revoke. -/
theorem held_iff_signedIn :
    Held SessionRow.tokenDigest SessionRow.expiresAt
        (sessionActs config sha256 hasher zoneInfo events) row ↔
      ∃ user, SignedIn config sha256 hasher zoneInfo events user row := by
  constructor
  · rintro ⟨granted, kept, hacts, -, hkept⟩
    obtain ⟨before, event, later, front, back, rfl, hemit, -, rfl⟩ := trace_eq_append_cons hacts
    have hgrant : Act.grant row ∈ completing (Work.sessionActs config sha256 hasher)
        (Server.reached config sha256 hasher zoneInfo before) event := by
      change completing _ (Server.reached config sha256 hasher zoneInfo before) event = _ at hemit
      rw [hemit]
      exact List.mem_append_right _ List.mem_cons_self
    obtain ⟨user, signsIn⟩ := grant_mem_completing hgrant
    refine ⟨user, before, event, later, rfl, signsIn, ?_⟩
    rintro middle other rest rfl hout
    rw [List.mem_append, not_or] at hkept
    refine hkept.2 (mem_trace.mpr ⟨_, other, ⟨middle, rest, rfl, rfl⟩, ?_⟩)
    rw [← run_cons, ← run_append]
    exact revoke_mem_completing.mpr hout
  · rintro ⟨user, before, event, later, rfl, signsIn, kept⟩
    obtain ⟨drop, hemit, free⟩ := signsIn.acts
    refine ⟨sessionActs config sha256 hasher zoneInfo before ++ [drop],
      trace (Server.protocol config sha256 hasher zoneInfo).next
        (completing (Work.sessionActs config sha256 hasher))
        (Server.reached config sha256 hasher zoneInfo (before ++ [event])) later, ?_, ?_, ?_⟩
    · unfold sessionActs
      rw [trace_append, trace]
      change _ ++ (completing _ (Server.reached config sha256 hasher zoneInfo before) event ++ _) =
        _
      rw [hemit]
      unfold Server.reached
      rw [Protocol.reached_snoc]
      simp [Protocol.reached]
    · rw [Leases.after_snoc, ← sessions_reached]
      exact free
    · rw [mem_trace]
      rintro ⟨_, other, ⟨middle, rest, rfl, rfl⟩, hout⟩
      have hsignsOut := revoke_mem_completing.mp hout
      unfold Server.reached Protocol.reached at hsignsOut
      rw [← run_append, List.append_assoc] at hsignsOut
      exact kept middle other rest rfl hsignsOut

/-- The account of a session is the one that signed in. -/
theorem SignedIn.account (h : SignedIn config sha256 hasher zoneInfo events user row) :
    user ∈ (Server.reached config sha256 hasher zoneInfo events).store.store.users ∧
      row.userId = user.id := by
  obtain ⟨before, event, later, rfl, signsIn, -⟩ := h
  obtain ⟨client, encoded, password, draws, rfl, hpending, -, -, rfl⟩ := signsIn
  exact ⟨users_reached (login_user hpending), rfl⟩

/-- A row of the session table was left by a login. -/
theorem signedIn_of_mem
    (h : row ∈ (Server.reached config sha256 hasher zoneInfo events).store.sessions) :
    ∃ user, SignedIn config sha256 hasher zoneInfo events user row := by
  rw [sessions_reached] at h
  exact held_iff_signedIn.mp (held_of_mem h)

theorem signedIn_of_sessionUser {token : String} {now : Int}
    (h : (Server.reached config sha256 hasher zoneInfo events).store.sessionUser sha256 token now =
      .ok user) :
    ∃ row, SignedIn config sha256 hasher zoneInfo events user row ∧
      row.tokenDigest = tokenDigest sha256 token ∧ now < row.expiresAt := by
  obtain ⟨row, hrow, hdigest, halive, huser, hid⟩ := Accounts.sessionUser_ok.mp h
  obtain ⟨account, signedIn⟩ := signedIn_of_mem hrow
  obtain rfl : account = user :=
    Table.eq_of_key signedIn.account.1 huser (signedIn.account.2.symm.trans hid.symm)
  exact ⟨row, signedIn, hdigest, halive⟩

end

/-- Over any run, at a reading of the clock that is not before that of a completed
login: a token is accepted for an account exactly when a login with a verified
password issued a token of its digest, nothing signed that one out since and it has
not expired. Dropping expired sessions is never observed. -/
theorem session_accepted_iff {user : UserRow} {token : String} {now : Int}
    (clock : LoginsBefore config sha256 hasher zoneInfo events now) :
    (Server.reached config sha256 hasher zoneInfo events).store.sessionUser sha256 token now =
        .ok user ↔
      ∃ row, SignedIn config sha256 hasher zoneInfo events user row ∧
        row.tokenDigest = tokenDigest sha256 token ∧ now < row.expiresAt := by
  refine ⟨signedIn_of_sessionUser, ?_⟩
  rintro ⟨row, signedIn, hdigest, halive⟩
  have purges : ∀ p stamp, .purge p stamp ∈ sessionActs config sha256 hasher zoneInfo events →
      stamp ≤ now := by
    intro p stamp hpurge
    obtain ⟨_, event, ⟨before, later, rfl, rfl⟩, hpurge⟩ := mem_trace.mp hpurge
    obtain ⟨client, account, password, draws, rfl, hpending, rfl⟩ := purge_mem_completing hpurge
    exact clock before client later account password draws rfl hpending
  have hrow := ((Leases.alive_iff purges).mpr ⟨held_iff_signedIn.mpr ⟨user, signedIn⟩, halive⟩).1
  rw [← sessions_reached] at hrow
  exact Accounts.sessionUser_ok.mpr
    ⟨row, hrow, hdigest, halive, signedIn.account.1, signedIn.account.2.symm⟩

/-- The clock of a login is that of its request. -/
theorem loginsBefore_of_started {now : Int}
    (h : ∀ client request, .start client request ∈ events → request.draws.stamp ≤ now) :
    LoginsBefore config sha256 hasher zoneInfo events now := by
  rintro before client later account password draws rfl hpending
  obtain ⟨earlier, request, rest, rfl, -, hstart⟩ := Protocol.pending_started hpending
  obtain ⟨-, data, -, rfl, -⟩ := Server.start_waiting hstart
  exact h client request (by simp)

/-- A registration and a login with the same password. -/
def signInRun (token passwordHash : String) : List ServerEvent :=
  let head : RequestHead := ⟨none, none, some "127.0.0.1", none, none⟩
  let credentials : Credentials := ⟨"a@example.org", "correct horse", by decide⟩
  let draws (n : Nat) : Draws := ⟨n, n, n, n, 1, fun _ => (2, 3), token, passwordHash⟩
  [.start 0 ⟨head, .register ⟨credentials, "UTC"⟩, draws 1⟩, .finish 0,
    .start 0 ⟨head, .login credentials, draws 2⟩, .finish 0]

theorem session_accepted_iff_signInRun :
    let token := "AbCdEfGhIjKlMnOpQrStUvWxYz0123456789_-AbCdE"
    let user : UserRow := ⟨1, "a@example.org", "UTC", 1⟩
    let config : Settings := ⟨"http://localhost:8000", 24, 10, by decide⟩
    let sha256 : String → String := fun text =>
      if text = token then "2022a6bdcd9838f4dce4492c1b4e3f35689ee927d308430b4c0a9a756e403c95"
      else "9461dce51033b8121ccd1db810338a284d14e31087fe37305f60c788e632a1c5"
    let hasher : Hasher := ⟨fun password encoded => "$" ++ password = encoded, "$"⟩
    ∃ row, SignedIn config sha256 hasher (fun _ => .utc) (signInRun token "$correct horse") user
        row ∧ row.tokenDigest = tokenDigest sha256 token ∧ 3 < row.expiresAt := by
  intro token user config sha256 hasher
  have clock : LoginsBefore config sha256 hasher (fun _ => .utc)
      (signInRun token "$correct horse") 3 := by
    refine loginsBefore_of_started fun client request h => ?_
    simp only [signInRun, List.mem_cons, Event.start.injEq, reduceCtorEq, List.not_mem_nil,
      or_false, false_or] at h
    rcases h with ⟨-, rfl⟩ | ⟨-, rfl⟩ <;> decide
  refine (session_accepted_iff clock).mp ?_
  decide +kernel

end SmartPlanner
