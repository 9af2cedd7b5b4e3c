import SmartPlanner.Library.Slots
import SmartPlanner.OvertakingAttempts
import SmartPlanner.ServerSessions

/-!
What the server allows at a time. The password hasher and the planner each serve
two requests at once, whatever the order in which requests come and are completed,
and one address gets the hasher a bounded number of times a minute.
-/

namespace SmartPlanner

open Outcome Runs Sessions Slots

/-- The request asks for the password hasher. -/
def Route.password : Route → Bool
  | .register .. => true
  | .login .. => true
  | _ => false

def Work.password : Work → Bool
  | .register .. => true
  | .login .. => true
  | _ => false

def Work.planning : Work → Bool
  | .preview .. => true
  | _ => false

/-- The attempt that `limit_auth` sees of a request. -/
def HttpRequest.attempt (request : HttpRequest) : AuthAttempt String :=
  ⟨request.draws.monotonic, request.head.client.getD "unknown"⟩

section
variable (config : Settings) (sha256 : String → String) (hasher : Hasher)
  (zoneInfo : String → Zone)

/-- The request reaches `limit_auth`. -/
def ReachesLimit (request : HttpRequest) : Prop :=
  request.route.password = true ∧ originAndSize config request = .ok ()

instance (request : HttpRequest) : Decidable (ReachesLimit config request) :=
  inferInstanceAs (Decidable (_ ∧ _))

/-- The attempt at the limiter that an event makes. -/
def attempting (state : State Server Work) : ServerEvent → List (AuthAttempt String)
  | .start client request =>
      if state.pending client = none ∧ ReachesLimit config request then [request.attempt] else []
  | _ => []

def authAttempts (events : List ServerEvent) : List (AuthAttempt String) :=
  trace (Server.protocol config sha256 hasher zoneInfo).next (attempting config)
    (.idle (.new config)) events

/-- When an event starts work of the hasher for an address. -/
def hashing (address : String) (state : State Server Work) : ServerEvent → List ℚ
  | .start client request =>
      match state.pending client, (state.store.start config sha256 request).1 with
      | none, .inr work =>
          if work.password = true ∧ request.attempt.client = address then
            [request.draws.monotonic]
          else []
      | _, _ => []
  | _ => []

def hashingTimes (address : String) (events : List ServerEvent) : List ℚ :=
  trace (Server.protocol config sha256 hasher zoneInfo).next (hashing config sha256 address)
    (.idle (.new config)) events

end

variable {config : Settings} {sha256 : String → String} {hasher : Hasher}
  {zoneInfo : String → Zone} {server : Server} {events : List ServerEvent}

namespace Server

theorem admitPassword_cases {request : HttpRequest} {work : Work} :
    (server.admitPassword request work).2.limiter = server.limiter.perform request.attempt ∧
      (server.admitPassword request work).2.planningSlots = server.planningSlots ∧
      ((¬ server.limiter.Allows request.attempt ∧
          (server.admitPassword request work).2.passwordSlots = server.passwordSlots ∧
          (server.admitPassword request work).1 = .inl (.failed (.app .authRateLimit))) ∨
        (server.limiter.Allows request.attempt ∧
          (server.admitPassword request work).2.passwordSlots = server.passwordSlots ∧
          server.passwordSlots = 0 ∧
          (server.admitPassword request work).1 = .inl (.refused .authBusy)) ∨
        (server.limiter.Allows request.attempt ∧
          server.passwordSlots = (server.admitPassword request work).2.passwordSlots + 1 ∧
          (server.admitPassword request work).1 = .inr work)) := by
  unfold admitPassword AuthLimiter.Allows AuthLimiter.perform HttpRequest.attempt
  dsimp only
  split
  · next error limiter h =>
      have herror : error = .app .authRateLimit := by
        unfold AuthLimiter.check at h
        dsimp only at h
        split at h <;> cases h
        rfl
      rw [h, herror]
      exact ⟨rfl, rfl, Or.inl ⟨by simp [Except.isOk, Except.toBool], rfl, rfl⟩⟩
  · next limiter h =>
      rw [h]
      cases hslots : server.passwordSlots with
      | zero => exact ⟨rfl, rfl, Or.inr (Or.inl ⟨rfl, rfl, rfl, rfl⟩)⟩
      | succ n => exact ⟨rfl, rfl, Or.inr (Or.inr ⟨rfl, rfl, rfl⟩)⟩

/-- The planner's slot. -/
theorem admitPreview_cases {work : Work} :
    (server.planningSlots = 0 ∧ server.admitPreview work =
        (.inl (.failed (.app .plannerBusy)), server)) ∨
      ∃ planningSlots, server.planningSlots = planningSlots + 1 ∧
        server.admitPreview work = (.inr work, { server with planningSlots }) := by
  unfold admitPreview
  split
  · next h => exact Or.inl ⟨h, rfl⟩
  · next planningSlots h => exact Or.inr ⟨planningSlots, h, rfl⟩

/-- What the middleware fails with. -/
theorem originAndSize_raises (request : HttpRequest) :
    Raises (fun failure => failure = .refused .originRejected ∨
      failure = .refused .requestTooLarge ∨ failure = .raised .value)
      (originAndSize config request) := by
  unfold originAndSize
  split
  · refine .bind (raises_raiseIf (Or.inl rfl)) fun _ _ => ?_
    split
    · exact raises_ok _
    · refine .bind (raises_raiseIf (Or.inr (Or.inl rfl))) fun _ _ => ?_
      exact .bind (raises_raiseIf (Or.inr (Or.inr rfl))) fun _ _ =>
        raises_raiseIf (Or.inr (Or.inl rfl))
  · exact raises_ok _

theorem currentUser_not_busy (request : HttpRequest) :
    Raises (· ≠ .authBusy) (server.currentUser sha256 request) := by
  refine .bind ?_ fun token _ => .bind ?_ fun user _ => .bind (raises_raiseIf (by decide))
    fun _ _ => raises_ok _
  · unfold sessionToken
    dsimp only
    split
    · exact raises_ok _
    · exact raises_error (by decide)
  · unfold Accounts.sessionUser
    dsimp only
    split
    · exact raises_ok _
    · exact raises_error (by decide)

/-- An answer of the first step that has to do with neither limit. -/
def Unlimited (answer : HttpReply ⊕ Work) : Prop :=
  answer ≠ .inl (.refused .authBusy) ∧ answer ≠ .inl (.failed (.app .plannerBusy)) ∧
    ∀ work, answer = .inr work → work.password = false ∧ work.planning = false

theorem unlimited_refused {error : GateError} (h : error ≠ .authBusy) :
    Unlimited (.inl (.refused error)) :=
  ⟨by simpa using h, by simp, by simp⟩

theorem unlimited_work {work : Work} (password : work.password = false)
    (planning : work.planning = false) : Unlimited (.inr work) := by
  refine ⟨by simp, by simp, ?_⟩
  rintro _ ⟨⟩
  exact ⟨password, planning⟩

/-- The first step of a request asks for the hasher, or for the planner, or for
neither and then changes nothing. -/
theorem start_cases (config : Settings) (sha256 : String → String) (server : Server)
    (request : HttpRequest) :
    (ReachesLimit config request ∧ ∃ work, work.password = true ∧ work.planning = false ∧
        server.start config sha256 request = server.admitPassword request work) ∨
      (¬ ReachesLimit config request ∧ ∃ work, work.password = false ∧ work.planning = true ∧
        server.start config sha256 request = server.admitPreview work) ∨
      (¬ ReachesLimit config request ∧ ∃ answer, Unlimited answer ∧
        server.start config sha256 request = (answer, server)) := by
  cases hgate : originAndSize config request with
  | error failure =>
      have hnot : ¬ ReachesLimit config request := by
        rintro ⟨-, hpassed⟩
        rw [hgate] at hpassed
        contradiction
      unfold start
      rw [hgate]
      rcases originAndSize_raises request _ hgate with rfl | rfl | rfl
      · exact Or.inr (Or.inr ⟨hnot, _, unlimited_refused (by decide), rfl⟩)
      · exact Or.inr (Or.inr ⟨hnot, _, unlimited_refused (by decide), rfl⟩)
      · exact Or.inr (Or.inr ⟨hnot, _, ⟨by simp, by simp, by simp⟩, rfl⟩)
  | ok done =>
      unfold start
      rw [hgate]
      dsimp only
      split
      · next data hroute => exact Or.inl ⟨⟨by rw [hroute]; rfl, hgate⟩, _, rfl, rfl, rfl⟩
      · next data hroute => exact Or.inl ⟨⟨by rw [hroute]; rfl, hgate⟩, _, rfl, rfl, rfl⟩
      · next route hregister hlogin =>
          have hnot : ¬ ReachesLimit config request := by
            rintro ⟨hpassword, -⟩
            unfold Route.password at hpassword
            split at hpassword
            · next h => exact hregister _ h
            · next h => exact hlogin _ h
            · contradiction
          split
          · next error huser =>
              exact Or.inr (Or.inr ⟨hnot, _, unlimited_refused
                (currentUser_not_busy request _ huser), rfl⟩)
          · split
            · exact Or.inr (Or.inr ⟨hnot, _, unlimited_work rfl rfl, rfl⟩)
            · exact Or.inr (Or.inl ⟨hnot, _, rfl, rfl, rfl⟩)
            · exact Or.inr (Or.inr ⟨hnot, _, unlimited_work rfl rfl, rfl⟩)
            · exact Or.inr (Or.inr ⟨hnot, _, ⟨by simp, by simp, by simp⟩, rfl⟩)
            · exact Or.inr (Or.inr ⟨hnot, _, ⟨by simp, by simp, by simp⟩, rfl⟩)

/-- The work of a request leaves the limits alone. -/
theorem work_limits (entry : Work) :
    (server.work config sha256 hasher zoneInfo entry).2.limiter = server.limiter ∧
      (server.work config sha256 hasher zoneInfo entry).2.passwordSlots = server.passwordSlots ∧
      (server.work config sha256 hasher zoneInfo entry).2.planningSlots = server.planningSlots := by
  cases entry with
  | logout token draws => exact ⟨rfl, rfl, rfl⟩
  | register data draws =>
      simp only [work]
      split <;> exact ⟨rfl, rfl, rfl⟩
  | login account password draws =>
      simp only [work, login]
      split
      · split <;> exact ⟨rfl, rfl, rfl⟩
      · exact ⟨rfl, rfl, rfl⟩
  | preview user data draws =>
      simp only [work]
      split <;> exact ⟨rfl, rfl, rfl⟩
  | call user endpoint draws =>
      simp only [work]
      split
      · exact ⟨rfl, rfl, rfl⟩
      · split <;> exact ⟨rfl, rfl, rfl⟩

/-- What a completed request gives back. -/
theorem finish_limits (entry : Work) :
    (server.finish config sha256 hasher zoneInfo entry).2.limiter = server.limiter ∧
      (server.finish config sha256 hasher zoneInfo entry).2.passwordSlots =
        server.passwordSlots + entry.password.toNat ∧
      (server.finish config sha256 hasher zoneInfo entry).2.planningSlots =
        server.planningSlots + entry.planning.toNat := by
  obtain ⟨hlimiter, hpassword, hplanning⟩ :=
    @work_limits config sha256 hasher zoneInfo server entry
  rw [← hlimiter, ← hpassword, ← hplanning]
  cases entry <;> exact ⟨rfl, rfl, rfl⟩

/-- What the first step of a request does to the limits. -/
@[mk_iff]
structure StartLimits (config : Settings) (server : Server) (request : HttpRequest)
    (answer : HttpReply ⊕ Work) (server' : Server) : Prop where
  limiter : server'.limiter = if ReachesLimit config request then
    server.limiter.perform request.attempt else server.limiter
  password : server'.passwordSlots + taken Work.password answer = server.passwordSlots
  planning : server'.planningSlots + taken Work.planning answer = server.planningSlots
  reaches : taken Work.password answer = 1 ∨ answer = .inl (.refused .authBusy) →
    ReachesLimit config request ∧ server.limiter.Allows request.attempt
  passwordBusy : ReachesLimit config request ∧ server.limiter.Allows request.attempt →
    (answer = .inl (.refused .authBusy) ↔ server.passwordSlots = 0)
  planningBusy : answer = .inl (.failed (.app .plannerBusy)) → server.planningSlots = 0

theorem start_limits (config : Settings) (sha256 : String → String) (server : Server)
    (request : HttpRequest) :
    StartLimits config server request (server.start config sha256 request).1
      (server.start config sha256 request).2 := by
  obtain ⟨⟨answer, server'⟩, h⟩ : ∃ step, server.start config sha256 request = step := ⟨_, rfl⟩
  rw [h, startLimits_iff]
  dsimp only
  rcases start_cases config sha256 server request with
    ⟨hreaches, work, hpassword, hplanning, heq⟩ | ⟨hnot, work, hpassword, hplanning, heq⟩ |
      ⟨hnot, answer, ⟨hbusy, hplanner, hwork⟩, heq⟩
  · have hadmit := @admitPassword_cases server request work
    rw [← heq, h] at hadmit
    obtain ⟨hlimiter, hplans, ⟨hno, hslots, rfl⟩ | ⟨hyes, hslots, hzero, rfl⟩ |
      ⟨hyes, hslots, rfl⟩⟩ := hadmit
    · simp_all [taken, AppError.authRateLimit, AppError.plannerBusy]
    · simp_all [taken]
    · simp_all [taken]
  · rcases @admitPreview_cases server work with ⟨hzero, hleft⟩ | ⟨slots, hslots, hleft⟩
    · rw [h, hleft] at heq
      cases heq
      simp_all [taken]
    · rw [h, hleft] at heq
      cases heq
      simp_all [taken]
  · rw [h] at heq
    cases heq
    cases answer with
    | inl reply => simp_all [taken]
    | inr work => simp_all [taken, hwork work rfl]

theorem passwordSlots_counted : Counted (Server.protocol config sha256 hasher zoneInfo)
    (fun server => server.passwordSlots) Work.password where
  start server request := (start_limits config sha256 server request).password
  finish _ entry := (finish_limits entry).2.1
  other _ command := nomatch command

theorem planningSlots_counted : Counted (Server.protocol config sha256 hasher zoneInfo)
    (fun server => server.planningSlots) Work.planning where
  start server request := (start_limits config sha256 server request).planning
  finish _ entry := (finish_limits entry).2.2
  other _ command := nomatch command

end Server

/-- Over any run, at most two requests use the password hasher and at most two the
planner at a time, no slot is lost, a request that the limiter lets through is
turned away by the hasher exactly when two others are using it, and one that the
planner turns away finds two others at it. -/
theorem slots_shared (config : Settings) (sha256 : String → String) (hasher : Hasher)
    (zoneInfo : String → Zone) (events : List ServerEvent) :
    let state := Server.reached config sha256 hasher zoneInfo events
    ((∀ clients : Finset ℕ, (∀ client ∈ clients, Holding Work.password state client) →
        clients.card ≤ 2) ∧
      ((∀ client, ¬ Holding Work.password state client) → state.store.passwordSlots = 2) ∧
      ∀ request, (state.store.start config sha256 request).1 = .inl (.refused .authBusy) ↔
        ReachesLimit config request ∧ state.store.limiter.Allows request.attempt ∧
          ∃ i j, i ≠ j ∧ Holding Work.password state i ∧ Holding Work.password state j) ∧
    ((∀ clients : Finset ℕ, (∀ client ∈ clients, Holding Work.planning state client) →
        clients.card ≤ 2) ∧
      ((∀ client, ¬ Holding Work.planning state client) → state.store.planningSlots = 2) ∧
      ∀ request,
        (state.store.start config sha256 request).1 = .inl (.failed (.app .plannerBusy)) →
          ∃ i j, i ≠ j ∧ Holding Work.planning state i ∧ Holding Work.planning state j) := by
  intro state
  obtain ⟨passwordLimit, passwordFree, passwordBusy⟩ :=
    (Server.passwordSlots_counted.reached (.new config) events).two
  obtain ⟨planningLimit, planningFree, planningBusy⟩ :=
    (Server.planningSlots_counted.reached (.new config) events).two
  refine ⟨⟨passwordLimit, passwordFree, fun request => ?_⟩,
    ⟨planningLimit, planningFree, fun request h => ?_⟩⟩
  · have limits := Server.start_limits config sha256 state.store request
    constructor
    · intro h
      have allowed := limits.reaches (Or.inr h)
      exact ⟨allowed.1, allowed.2, passwordBusy.mp ((limits.passwordBusy allowed).mp h)⟩
    · rintro ⟨hreaches, hallows, two⟩
      exact (limits.passwordBusy ⟨hreaches, hallows⟩).mpr (passwordBusy.mpr two)
  · have limits := Server.start_limits config sha256 state.store request
    exact planningBusy.mp (limits.planningBusy h)

section
variable (state : State Server Work) (event : ServerEvent)

/-- What an event does to the limiter. -/
theorem next_limiter :
    ((Server.protocol config sha256 hasher zoneInfo).next state event).store.limiter =
      run AuthLimiter.perform state.store.limiter (attempting config state event) := by
  cases event with
  | other command => exact nomatch command
  | finish client =>
      cases hclient : state.pending client with
      | none => rw [Protocol.next_free hclient]; rfl
      | some entry =>
          rw [Protocol.next_finish hclient]
          exact (Server.finish_limits entry).1
  | start client request =>
      cases hclient : state.pending client with
      | some entry =>
          rw [Protocol.next_busy hclient, attempting, if_neg (by simp [hclient])]
          rfl
      | none =>
          have hlimiter := (Server.start_limits config sha256 state.store request).limiter
          have hattempt : run AuthLimiter.perform state.store.limiter
              (attempting config state (.start client request)) =
              (state.store.start config sha256 request).2.limiter := by
            rw [hlimiter, attempting]
            by_cases hreaches : ReachesLimit config request <;> simp [hclient, hreaches, run]
          rw [hattempt]
          rcases h : (Server.protocol config sha256 hasher zoneInfo).start state.store request with
            ⟨reply | work, after⟩
          · rw [Protocol.next_answered hclient h]
            change Server.start config sha256 state.store request = _ at h
            rw [h]
          · rw [Protocol.next_waiting hclient h]
            change Server.start config sha256 state.store request = _ at h
            rw [h]

/-- An event makes one attempt at most, and starts work of the hasher for the
attempt's address only where the limiter lets it through. -/
theorem hashing_attempting (address : String) :
    (attempting config state event = [] ∧ hashing config sha256 address state event = []) ∨
      ∃ attempt, attempting config state event = [attempt] ∧
        (hashing config sha256 address state event = [] ∨
          attempt.client = address ∧ state.store.limiter.Allows attempt ∧
            hashing config sha256 address state event = [attempt.now]) := by
  cases event with
  | other command => exact nomatch command
  | finish client => exact Or.inl ⟨rfl, rfl⟩
  | start client request =>
      rw [attempting, hashing]
      cases hclient : state.pending client with
      | some entry => exact Or.inl ⟨if_neg (by simp), rfl⟩
      | none =>
          have reaches := (Server.start_limits config sha256 state.store request).reaches
          rcases h : (state.store.start config sha256 request).1 with reply | work
          · by_cases hreaches : ReachesLimit config request
            · exact Or.inr ⟨_, if_pos ⟨rfl, hreaches⟩, Or.inl rfl⟩
            · exact Or.inl ⟨if_neg fun h => hreaches h.2, rfl⟩
          · by_cases hwork : work.password = true ∧ request.attempt.client = address
            · obtain ⟨hreaches, hallows⟩ := reaches (Or.inl (by rw [h, taken, hwork.1]; rfl))
              exact Or.inr ⟨_, if_pos ⟨rfl, hreaches⟩,
                Or.inr ⟨hwork.2, hallows, if_pos hwork⟩⟩
            · by_cases hreaches : ReachesLimit config request
              · exact Or.inr ⟨_, if_pos ⟨rfl, hreaches⟩, Or.inl (if_neg hwork)⟩
              · exact Or.inl ⟨if_neg fun h => hreaches h.2, if_neg hwork⟩

end

/-- The limiter of the server has seen the attempts of the run. -/
theorem limiter_reached (events : List ServerEvent) :
    (Server.reached config sha256 hasher zoneInfo events).store.limiter =
      AuthLimiter.after config.authRequestsPerMinute
        (authAttempts config sha256 hasher zoneInfo events) := by
  induction events using List.reverseRecOn with
  | nil => rfl
  | append_singleton events event ih =>
      unfold authAttempts AuthLimiter.after at ih ⊢
      rw [trace_snoc, run_append, ← ih]
      unfold Server.reached
      rw [Protocol.reached_snoc]
      exact next_limiter _ event

/-- The hasher works for an address only where the limiter lets it through. -/
theorem hashingTimes_sublist (address : String) (events : List ServerEvent) :
    (hashingTimes config sha256 hasher zoneInfo address events).Sublist
      (AuthLimiter.admissions config.authRequestsPerMinute address
        (authAttempts config sha256 hasher zoneInfo events)) := by
  induction events using List.reverseRecOn with
  | nil => exact List.Sublist.slnil
  | append_singleton events event ih =>
      have hlimiter := @limiter_reached config sha256 hasher zoneInfo events
      unfold hashingTimes authAttempts at ih ⊢
      rw [trace_snoc, trace_snoc]
      change (_ ++ hashing config sha256 address
        (Server.reached config sha256 hasher zoneInfo events) event).Sublist
        (AuthLimiter.admissions _ _ (_ ++ attempting config
          (Server.reached config sha256 hasher zoneInfo events) event))
      rcases hashing_attempting (Server.reached config sha256 hasher zoneInfo events) event address
        with ⟨hattempt, hhash⟩ | ⟨attempt, hattempt, hhash | ⟨hclient, hallows, hhash⟩⟩
      · rwa [hattempt, hhash, List.append_nil, List.append_nil]
      · rw [hattempt, hhash, List.append_nil, AuthLimiter.admissions_snoc]
        split
        · exact ih.trans (List.sublist_append_left _ _)
        · exact ih
      · rw [hlimiter] at hallows
        rw [hattempt, hhash, AuthLimiter.admissions_snoc, if_pos ⟨hclient, hallows⟩]
        exact ih.append (List.Sublist.refl _)

/-- Over any run in which the requests wait at most `lag` seconds between reading
the clock and taking the lock of the limiter, one address gets the password hasher
less than twice the limit in any 60 seconds less two lags. -/
theorem hashing_bounded {events : List ServerEvent} {lag : ℚ} (nonneg : 0 ≤ lag)
    (lagging : AuthLimiter.Lagging lag (authAttempts config sha256 hasher zoneInfo events))
    (address : String) (low : ℚ) :
    ((hashingTimes config sha256 hasher zoneInfo address events).countP fun time =>
      low ≤ time ∧ time < low + (60 - 2 * lag)) ≤ 2 * config.authRequestsPerMinute - 1 := by
  have limited := config.settingsValid.2.1
  have bound := AuthLimiter.admissions_countP_lt nonneg limited lagging address low
  exact le_trans ((hashingTimes_sublist address events).countP_le) (Nat.le_sub_one_of_lt bound)

theorem hashing_bounded_signInRun :
    let token := "AbCdEfGhIjKlMnOpQrStUvWxYz0123456789_-AbCdE"
    let config : Settings := ⟨"http://localhost:8000", 24, 10, by decide⟩
    let sha256 : String → String := fun text =>
      if text = token then "2022a6bdcd9838f4dce4492c1b4e3f35689ee927d308430b4c0a9a756e403c95"
      else "9461dce51033b8121ccd1db810338a284d14e31087fe37305f60c788e632a1c5"
    let times := hashingTimes config sha256 ⟨fun password encoded => "$" ++ password = encoded, "$"⟩
      (fun _ => .utc) "127.0.0.1" (signInRun token "$correct horse")
    times = [1, 2] ∧
      (times.countP fun time => 1 ≤ time ∧ time < 1 + (60 - 2 * (1 / 2))) ≤ 2 * 10 - 1 := by
  intro token config sha256 times
  have lagging : AuthLimiter.Lagging (1 / 2) (authAttempts config sha256
      ⟨fun password encoded => "$" ++ password = encoded, "$"⟩ (fun _ => .utc)
      (signInRun token "$correct horse")) := by
    unfold AuthLimiter.Lagging
    decide +kernel
  exact ⟨by decide +kernel, hashing_bounded (by norm_num) lagging "127.0.0.1" 1⟩

end SmartPlanner
