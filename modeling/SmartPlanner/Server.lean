import SmartPlanner.Accounts
import SmartPlanner.Api
import SmartPlanner.AuthLimiter
import SmartPlanner.Operations
import SmartPlanner.Library.Sessions

/-!
`create_app` of `api.py`: the checks in front of every request, the signed-in
account, and the endpoints. A request is served in two steps: the checks with the
read of the session or of the account, and the work of the endpoint. Any other
requests may be served in between. The password hasher and the planner take a slot
of their semaphore for the time between the two.
-/

namespace SmartPlanner

open Outcome Sessions Tables

namespace GateError

def originRejected : GateError := ⟨403, .originRejected, "مبدأ درخواست معتبر نیست."⟩

def requestTooLarge : GateError := ⟨413, .requestTooLarge, "حجم درخواست زیاد است."⟩

def authenticationRequired : GateError := ⟨401, .authenticationRequired, "وارد حساب شوید."⟩

def csrfRejected : GateError :=
  ⟨403, .csrfRejected, "درخواست تغییر معتبر نیست؛ صفحه را تازه کنید."⟩

def invalidCredentials : GateError := ⟨401, .invalidCredentials, "ایمیل یا رمز درست نیست."⟩

def invalidTimeRange : GateError :=
  ⟨422, .invalidTimeRange, "پایان بازه باید پس از شروع آن باشد."⟩

end GateError

/-- The settings that `create_app` reads. -/
structure Settings where
  origin : String
  sessionHours : Nat
  authRequestsPerMinute : Nat
  settingsValid : (1 ≤ sessionHours ∧ sessionHours ≤ 168) ∧
    (1 ≤ authRequestsPerMinute ∧ authRequestsPerMinute ≤ 1000)

inductive Method
  | get | post | put | patch | delete
deriving DecidableEq, Repr

/-- `request.method in {"POST", "PUT", "PATCH", "DELETE"}`. -/
def Method.writes (method : Method) : Bool := method ≠ .get

/-- The query parameters of a listing. -/
structure Page where
  limit : Nat
  offset : Nat
  pageValid : (1 ≤ limit ∧ limit ≤ 100) ∧ offset ≤ 100000

/-- The query parameter `expected_version`. -/
structure ExpectedVersion where
  value : Nat
  versionValid : VersionValid value

/-- The endpoints that run one operation of the repositories, with their validated
parameters. -/
inductive Endpoint
  | preferences
  | updatePreferences (data : PreferencePut)
  | createTask (data : TaskCreate)
  | tasks (page : Page)
  | getTask (taskId : UUID)
  | updateTask (taskId : UUID) (data : TaskPatch)
  | deleteTask (taskId : UUID) (expected : ExpectedVersion)
  | createFixedEvent (data : FixedEventCreate)
  | fixedEvents (start stop : Option Int) (page : Page)
  | fixedEvent (eventId : UUID)
  | replaceFixedEvent (eventId : UUID) (data : FixedEventReplace)
  | deleteFixedEvent (eventId : UUID) (expected : ExpectedVersion)
  | createRecurrence (data : RecurrenceCreate)
  | recurrences (page : Page)
  | recurrence (recurrenceId : UUID)
  | replaceRecurrence (recurrenceId : UUID) (data : RecurrenceReplace)
  | deleteRecurrence (recurrenceId : UUID) (expected : ExpectedVersion)
  | recurrenceOccurrences (recurrenceId : UUID) (data : OccurrenceRequest)
  | saveSchedule (data : ScheduleCreate)
  | savedSchedules (page : Page)
  | savedSchedule (scheduleId : UUID)
  | editSchedule (scheduleId : UUID) (data : ScheduleReplace)
  | scheduleHistory (scheduleId : UUID)
  | undoSchedule (scheduleId : UUID) (data : HistoryCommand)
  | redoSchedule (scheduleId : UUID) (data : HistoryCommand)

def Endpoint.method : Endpoint → Method
  | .updatePreferences .. => .put
  | .createTask .. => .post
  | .updateTask .. => .patch
  | .deleteTask .. => .delete
  | .createFixedEvent .. => .post
  | .replaceFixedEvent .. => .put
  | .deleteFixedEvent .. => .delete
  | .createRecurrence .. => .post
  | .replaceRecurrence .. => .put
  | .deleteRecurrence .. => .delete
  | .recurrenceOccurrences .. => .post
  | .saveSchedule .. => .post
  | .editSchedule .. => .put
  | .undoSchedule .. => .post
  | .redoSchedule .. => .post
  | _ => .get

/-- The path starts with `/api/v1/schedules`. -/
def Endpoint.ofSchedules : Endpoint → Bool
  | .saveSchedule .. => true
  | .savedSchedules .. => true
  | .savedSchedule .. => true
  | .editSchedule .. => true
  | .scheduleHistory .. => true
  | .undoSchedule .. => true
  | .redoSchedule .. => true
  | _ => false

inductive Route
  | register (data : Registration)
  | login (data : Credentials)
  | logout
  | session
  | me
  | previewSchedule (data : PreviewRequest)
  | call (endpoint : Endpoint)

def Route.method : Route → Method
  | .register .. => .post
  | .login .. => .post
  | .logout => .post
  | .session => .get
  | .me => .get
  | .previewSchedule .. => .post
  | .call endpoint => endpoint.method

def Route.bodyLimit : Route → Nat
  | .previewSchedule .. => 131072
  | .call endpoint => if endpoint.ofSchedules then 131072 else 32768
  | _ => 32768

/-- The headers that are read, and the address of the client. -/
structure RequestHead where
  origin : Option String
  contentLength : Option String
  client : Option String
  cookie : Option String
  csrfToken : Option String

/-- What the clocks show and what is drawn while a request is served: when it
arrives, and when its endpoint does its work. `monotonic` is read before the lock
of the limiter is taken, so another request may read later and be first. -/
structure Draws where
  monotonic : ℚ
  arrival : Int
  stamp : Int
  now : Int
  id : UUID
  fresh : Nat → UUID × UUID
  token : String
  passwordHash : String

structure HttpRequest where
  head : RequestHead
  route : Route
  draws : Draws

inductive HttpReply
  | refused (error : GateError)
  | failed (error : PyError)
  | account (user : UserRow)
  | signedIn (user : UserRow) (token csrf : String)
  | session (user : UserRow) (csrf : String)
  | signedOut
  | answered (response : Response)
  | preview (preview : PlanPreview)

/-- The work that is left after the first step of a request. -/
inductive Work
  | register (data : Registration) (draws : Draws)
  | login (account : Option (UserRow × String)) (password : String) (draws : Draws)
  | logout (token : String) (draws : Draws)
  | preview (user : UserRow) (data : PreviewRequest) (draws : Draws)
  | call (user : UserRow) (endpoint : Endpoint) (draws : Draws)

/-- The counts are the free slots of `Passwords.slots` and `planning_slots`. -/
structure Server extends Accounts where
  limiter : AuthLimiter String
  passwordSlots : Nat
  planningSlots : Nat

def Server.new (config : Settings) : Server where
  toAccounts := .empty
  limiter := .new config.authRequestsPerMinute
  passwordSlots := 2
  planningSlots := 2

/-- `[0-9a-f]{64}`. -/
def HexDigest (text : String) : Prop :=
  text.length = 64 ∧ ∀ c ∈ text.toList, ('0' ≤ c ∧ c ≤ '9') ∨ ('a' ≤ c ∧ c ≤ 'f')

instance (text : String) : Decidable (HexDigest text) := inferInstanceAs (Decidable (_ ∧ _))

/-- `TOKEN_FORMAT`. -/
def TokenFormat (token : String) : Prop :=
  token.length = 43 ∧ ∀ c ∈ token.toList, ('A' ≤ c ∧ c ≤ 'Z') ∨ ('a' ≤ c ∧ c ≤ 'z') ∨
    ('0' ≤ c ∧ c ≤ '9') ∨ c = '_' ∨ c = '-'

instance (token : String) : Decidable (TokenFormat token) := inferInstanceAs (Decidable (_ ∧ _))

/-- `length.isdigit()`. A header holds Latin-1 characters, and the superscripts
among them are digits too. -/
def HeaderDigits (length : String) : Prop :=
  length.toList ≠ [] ∧ ∀ c ∈ length.toList, c.isDigit = true ∨ c ∈ ['²', '³', '¹']

instance (length : String) : Decidable (HeaderDigits length) := inferInstanceAs (Decidable (_ ∧ _))

/-- `int` reads the digits: decimal ones, and no more than 4300. -/
def IntReads (length : String) : Prop :=
  length.length ≤ 4300 ∧ ∀ c ∈ length.toList, c.isDigit = true

instance (length : String) : Decidable (IntReads length) := inferInstanceAs (Decidable (_ ∧ _))

/-- What the middleware answers itself, or the exception that leaves it. -/
inductive GateFailure
  | refused (error : GateError)
  | raised (error : PyError)
deriving DecidableEq

/-- `not length.isdigit() or int(length) > body_limit`, with the `ValueError` of
`int`. -/
def checkLength (limit : Nat) (length : String) : Except GateFailure Unit := do
  raiseIf (¬ HeaderDigits length) (.refused .requestTooLarge)
  raiseIf (¬ IntReads length) (.raised .value)
  raiseIf (limit < Nat.ofDigitChars 10 length.toList 0) (.refused .requestTooLarge)

/-- The checks of `origin_and_response_headers`. -/
def originAndSize (config : Settings) (request : HttpRequest) : Except GateFailure Unit :=
  if request.route.method.writes then do
    raiseIf (∃ origin ∈ request.head.origin, origin ≠ config.origin) (.refused .originRejected)
    match request.head.contentLength with
    | none => return
    | some length => checkLength request.route.bodyLimit length
  else .ok ()

def sessionToken (head : RequestHead) : Except GateError String :=
  let token := head.cookie.getD ""
  if TokenFormat token then .ok token else .error .authenticationRequired

/-- The operation that an endpoint runs for an account. -/
def Endpoint.operation (owner : UUID) (draws : Draws) : Endpoint → Operation
  | .preferences => .query owner .preferences
  | .updatePreferences data => .command (.updatePreferences owner data draws.stamp)
  | .createTask data => .command (.createTask owner data draws.id draws.stamp)
  | .tasks page => .query owner (.tasks page.limit page.offset)
  | .getTask taskId => .query owner (.task taskId)
  | .updateTask taskId data => .command (.updateTask owner taskId data draws.stamp)
  | .deleteTask taskId expected => .command (.deleteTask owner taskId expected.value draws.stamp)
  | .createFixedEvent data => .command (.createEvent owner data draws.id draws.stamp)
  | .fixedEvents start stop page => .query owner (.events start stop page.limit page.offset)
  | .fixedEvent eventId => .query owner (.event eventId)
  | .replaceFixedEvent eventId data => .command (.replaceEvent owner eventId data draws.stamp)
  | .deleteFixedEvent eventId expected => .command (.deleteEvent owner eventId expected.value)
  | .createRecurrence data => .command (.createRecurrence owner data draws.id draws.stamp)
  | .recurrences page => .query owner (.recurrences page.limit page.offset)
  | .recurrence recurrenceId => .query owner (.recurrence recurrenceId)
  | .replaceRecurrence recurrenceId data =>
      .command (.replaceRecurrence owner recurrenceId data draws.stamp)
  | .deleteRecurrence recurrenceId expected =>
      .command (.deleteRecurrence owner recurrenceId expected.value draws.stamp)
  | .recurrenceOccurrences recurrenceId data =>
      .command (.materialize owner recurrenceId data draws.fresh draws.now draws.stamp)
  | .saveSchedule data => .command (.createSchedule owner data draws.id draws.now draws.stamp)
  | .savedSchedules page => .query owner (.schedules page.limit page.offset)
  | .savedSchedule scheduleId => .query owner (.schedule scheduleId)
  | .editSchedule scheduleId data =>
      .command (.replaceSchedule owner scheduleId data draws.now draws.stamp)
  | .scheduleHistory scheduleId => .query owner (.history scheduleId)
  | .undoSchedule scheduleId data =>
      .command (.travelSchedule owner scheduleId data .undo draws.now draws.stamp)
  | .redoSchedule scheduleId data =>
      .command (.travelSchedule owner scheduleId data .redo draws.now draws.stamp)

/-- The check of `fixed_events` on its range. -/
def Endpoint.rangeRejected : Endpoint → Bool
  | .fixedEvents (some start) (some stop) _ => stop ≤ start
  | _ => false

namespace Server
variable (config : Settings) (sha256 : String → String) (hasher : Hasher)
  (zoneInfo : String → Zone)

/-- `current_user`, with the token it read. -/
def currentUser (server : Server) (request : HttpRequest) :
    Except GateError (String × UserRow) := do
  let token ← sessionToken request.head
  let user ← server.sessionUser sha256 token request.draws.arrival
  raiseIf (request.route.method.writes = true ∧
    ¬ (HexDigest (request.head.csrfToken.getD "") ∧
      request.head.csrfToken.getD "" = csrfForToken sha256 token)) .csrfRejected
  return (token, user)

/-- `limit_auth` under the lock of the limiter, with the reading the request took
before it, and the slot of `Passwords.run`. -/
def admitPassword (server : Server) (request : HttpRequest) (work : Work) :
    (HttpReply ⊕ Work) × Server :=
  match server.limiter.check request.draws.monotonic (request.head.client.getD "unknown") with
  | (.error error, limiter) => (.inl (.failed error), { server with limiter })
  | (.ok _, limiter) =>
      match server.passwordSlots with
      | 0 => (.inl (.refused .authBusy), { server with limiter })
      | passwordSlots + 1 => (.inr work, { server with limiter, passwordSlots })

/-- The slot of `preview_schedule`. -/
def admitPreview (server : Server) (work : Work) : (HttpReply ⊕ Work) × Server :=
  match server.planningSlots with
  | 0 => (.inl (.failed (.app .plannerBusy)), server)
  | planningSlots + 1 => (.inr work, { server with planningSlots })

def start (server : Server) (request : HttpRequest) : (HttpReply ⊕ Work) × Server :=
  match originAndSize config request with
  | .error (.refused error) => (.inl (.refused error), server)
  | .error (.raised error) => (.inl (.failed error), server)
  | .ok _ =>
      match request.route with
      | .register data => server.admitPassword request (.register data request.draws)
      | .login data => server.admitPassword request
          (.login (server.accountForLogin data.email) data.password request.draws)
      | route =>
          match server.currentUser sha256 request with
          | .error error => (.inl (.refused error), server)
          | .ok (token, user) =>
              match route with
              | .logout => (.inr (.logout token request.draws), server)
              | .previewSchedule data => server.admitPreview (.preview user data request.draws)
              | .call endpoint => (.inr (.call user endpoint request.draws), server)
              | .session => (.inl (.session user (csrfForToken sha256 token)), server)
              | _ => (.inl (.account user), server)

def login (server : Server) (account : Option (UserRow × String)) (password : String)
    (draws : Draws) : HttpReply × Server :=
  match account, hasher.check password (account.map Prod.snd) with
  | some (user, _), true =>
      match server.createSession sha256 user.id config.sessionHours draws.token draws.stamp
        draws.now with
      | .ok toAccounts =>
          (.signedIn user draws.token (csrfForToken sha256 draws.token), { server with toAccounts })
      | .error error => (.failed error, server)
  | _, _ => (.refused .invalidCredentials, server)

/-- The slot that a request held is free after its work. -/
def release (server : Server) : Work → Server
  | .register .. => { server with passwordSlots := server.passwordSlots + 1 }
  | .login .. => { server with passwordSlots := server.passwordSlots + 1 }
  | .preview .. => { server with planningSlots := server.planningSlots + 1 }
  | _ => server

def work (server : Server) : Work → HttpReply × Server
  | .register data draws =>
      match server.register data draws.passwordHash draws.id draws.stamp with
      | .ok (user, toAccounts) => (.account user, { server with toAccounts })
      | .error error => (.failed error, server)
  | .login account password draws => server.login config sha256 hasher account password draws
  | .logout token _ => (.signedOut, { server with toAccounts := server.logout sha256 token })
  | .preview user data draws =>
      match previewSchedule zoneInfo server.store user data true draws.now with
      | .ok preview => (.preview preview, server)
      | .error error => (.failed error, server)
  | .call user endpoint draws =>
      if endpoint.rangeRejected then (.refused .invalidTimeRange, server)
      else
        match answer zoneInfo server.store (endpoint.operation user.id draws) with
        | .ok (response, store) => (.answered response, { server with store })
        | .error error => (.failed error, server)

def finish (server : Server) (entry : Work) : HttpReply × Server :=
  let (reply, server) := server.work config sha256 hasher zoneInfo entry
  (reply, server.release entry)

/-- The server with the requests of any clients. -/
def protocol : Protocol Server HttpRequest Work HttpReply Empty where
  start := start config sha256
  finish := finish config sha256 hasher zoneInfo
  other server _ := server

end Server

end SmartPlanner
