import SmartPlanner.Library.Leases
import SmartPlanner.Repository

/-!
`accounts.py` and the account functions of `repository.py`: registration,
password checks and sessions. `sha256` stands for the hex digest of a text and
`Hasher` for the password hasher; the texts it makes are drawn by the caller.
-/

namespace SmartPlanner

open Outcome Tables

/-- What `str.strip` takes off. -/
def pySpace (c : Char) : Bool :=
  (9 ≤ c.toNat && c.toNat ≤ 13) || (28 ≤ c.toNat && c.toNat ≤ 32) ||
    (8192 ≤ c.toNat && c.toNat ≤ 8202) ||
    c.toNat ∈ [133, 160, 5760, 8232, 8233, 8239, 8287, 12288]

def PasswordValid (password : String) : Prop :=
  (12 ≤ password.length ∧ password.length ≤ 128) ∧
    ∃ c ∈ password.toList, pySpace c = false

instance (password : String) : Decidable (PasswordValid password) :=
  @instDecidableAnd _ _ inferInstance
    (List.decidableBEx (fun c => pySpace c = false) password.toList)

/-- `Credentials`; the email is stripped and in lower case. -/
structure Credentials where
  email : String
  password : String
  passwordValid : PasswordValid password

/-- `Registration`; the timezone is one of the database. -/
structure Registration extends Credentials where
  timezone : String

/-- The column `password_hash` of `users`. -/
structure PasswordRow where
  userId : UUID
  passwordHash : String
deriving DecidableEq

structure SessionRow where
  tokenDigest : String
  userId : UUID
  expiresAt : Int
deriving DecidableEq

/-- The tables of accounts beside those of planning. -/
structure Accounts where
  store : Store
  passwords : Table PasswordRow.userId
  sessions : Table SessionRow.tokenDigest

def Accounts.empty : Accounts := ⟨.empty, .empty, .empty⟩

/-- The codes of the errors that `api.py` and the session functions raise
themselves. -/
inductive GateCode
  | originRejected
  | requestTooLarge
  | authenticationRequired
  | csrfRejected
  | invalidCredentials
  | authBusy
  | invalidTimeRange
deriving DecidableEq, Repr

def GateCode.text : GateCode → String
  | .originRejected => "origin_rejected"
  | .requestTooLarge => "request_too_large"
  | .authenticationRequired => "authentication_required"
  | .csrfRejected => "csrf_rejected"
  | .invalidCredentials => "invalid_credentials"
  | .authBusy => "auth_busy"
  | .invalidTimeRange => "invalid_time_range"

structure GateError where
  status : Nat
  code : GateCode
  message : String
deriving DecidableEq, Repr

namespace GateError

def sessionEnded : GateError := ⟨401, .authenticationRequired, "دوباره وارد حساب شوید."⟩

def authBusy : GateError := ⟨429, .authBusy, "چند لحظه بعد دوباره تلاش کنید."⟩

end GateError

/-- `PasswordHash.verify`, and the hash that stands in for a missing account. -/
structure Hasher where
  verify : String → String → Bool
  dummy : String

/-- `Passwords.verify`: a missing account costs a verification and fails. -/
def Hasher.check (hasher : Hasher) (password : String) (encoded : Option String) : Bool :=
  hasher.verify password (encoded.getD hasher.dummy) && encoded.isSome

section
variable (sha256 : String → String)

def tokenDigest (token : String) : String := sha256 token

def csrfForToken (token : String) : String := sha256 ("smartplanner-csrf-v1:" ++ token)

end

def hour : Int := 3600000000

namespace Accounts
variable (sha256 : String → String) (accounts : Accounts)

def register (data : Registration) (passwordHash : String) (id : UUID) (stamp : Int) :
    Except PyError (UserRow × Accounts) := do
  let (user, store) ← Repository.register accounts.store id data.email data.timezone stamp
  return (user, { accounts with store, passwords := accounts.passwords.put ⟨id, passwordHash⟩ })

/-- The account of an email with its password hash. -/
def accountForLogin (email : String) : Option (UserRow × String) :=
  (accounts.store.users.rows.find? fun row => row.email = email).bind fun user =>
    (accounts.passwords.find? user.id).map fun row => (user, row.passwordHash)

/-- `stamp` is the clock of the database and `now` that of the process. -/
def createSession (userId : UUID) (hours : Nat) (token : String) (stamp now : Int) :
    Except PyError Accounts := do
  let kept := accounts.sessions.delete fun row => row.userId = userId && row.expiresAt ≤ stamp
  let sessions ← insertRow kept ⟨tokenDigest sha256 token, userId, now + hours * hour⟩
  return { accounts with sessions }

def sessionUser (token : String) (stamp : Int) : Except GateError UserRow :=
  let user? := (accounts.sessions.rows.find? fun row =>
    row.tokenDigest = tokenDigest sha256 token && stamp < row.expiresAt).bind fun row =>
      accounts.store.users.find? row.userId
  match user? with
  | some user => .ok user
  | none => .error .sessionEnded

def logout (token : String) : Accounts :=
  { accounts with sessions := accounts.sessions.delete fun row =>
      row.tokenDigest = tokenDigest sha256 token }

variable {sha256 accounts}

theorem register_ok {data : Registration} {passwordHash : String} {id : UUID} {stamp : Int}
    {user : UserRow} {accounts' : Accounts}
    (h : accounts.register data passwordHash id stamp = .ok (user, accounts')) :
    Repository.register accounts.store id data.email data.timezone stamp =
      .ok (user, accounts'.store) ∧ accounts'.sessions = accounts.sessions := by
  unfold register at h
  simp only [bind_ok, pure_eq_ok, Except.ok.injEq, Prod.mk.injEq] at h
  obtain ⟨made, hmade, rfl, rfl⟩ := h
  exact ⟨hmade, rfl⟩

theorem register_error {data : Registration} {passwordHash : String} {id : UUID} {stamp : Int}
    {error : PyError} (h : accounts.register data passwordHash id stamp = .error error) :
    Repository.register accounts.store id data.email data.timezone stamp = .error error := by
  unfold register at h
  rw [bind_error] at h
  rcases h with h | ⟨made, -, h⟩
  · exact h
  · contradiction

/-- The user of a session that is alive. -/
theorem sessionUser_ok {token : String} {stamp : Int} {user : UserRow} :
    accounts.sessionUser sha256 token stamp = .ok user ↔
      ∃ row ∈ accounts.sessions, row.tokenDigest = tokenDigest sha256 token ∧
        stamp < row.expiresAt ∧ user ∈ accounts.store.users ∧ user.id = row.userId := by
  have unique : ∀ x ∈ accounts.sessions, ∀ y ∈ accounts.sessions,
      (decide (x.tokenDigest = tokenDigest sha256 token) && decide (stamp < x.expiresAt)) = true →
      (decide (y.tokenDigest = tokenDigest sha256 token) && decide (stamp < y.expiresAt)) = true →
      x = y := by
    intro x hx y hy hpx hpy
    rw [Bool.and_eq_true, decide_eq_true_eq] at hpx hpy
    exact accounts.sessions.eq_of_key hx hy (hpx.1.trans hpy.1.symm)
  unfold sessionUser
  dsimp only
  split
  · next found hfound =>
      rw [Option.bind_eq_some_iff] at hfound
      obtain ⟨row, hrow, hfound⟩ := hfound
      rw [Table.rows_find?_eq_some unique, Bool.and_eq_true, decide_eq_true_eq,
        decide_eq_true_eq] at hrow
      obtain ⟨hmem, hdigest, halive⟩ := hrow
      obtain ⟨huser, hid⟩ := Table.find?_eq_some.mp hfound
      rw [Except.ok.injEq]
      constructor
      · rintro rfl
        exact ⟨row, hmem, hdigest, halive, huser, hid⟩
      · rintro ⟨other, hother, hdigest', -, huser', hid'⟩
        obtain rfl := accounts.sessions.eq_of_key hmem hother (hdigest.trans hdigest'.symm)
        exact accounts.store.users.eq_of_key huser huser' (hid.trans hid'.symm)
  · next hnone =>
      refine iff_of_false nofun ?_
      rintro ⟨row, hmem, hdigest, halive, huser, hid⟩
      have hfind := (Table.rows_find?_eq_some unique).mpr
        ⟨hmem, by rw [Bool.and_eq_true, decide_eq_true_eq, decide_eq_true_eq]
                  exact ⟨hdigest, halive⟩⟩
      rw [hfind, Option.bind_some, Table.find?_eq_some.mpr ⟨huser, hid⟩] at hnone
      contradiction

theorem accountForLogin_eq_some {email : String} {user : UserRow} {encoded : String}
    (h : accounts.accountForLogin email = some (user, encoded)) :
    user ∈ accounts.store.users ∧ user.email = email ∧
      ⟨user.id, encoded⟩ ∈ accounts.passwords := by
  unfold accountForLogin at h
  simp only [Option.bind_eq_some_iff, Option.map_eq_some_iff, Prod.mk.injEq] at h
  obtain ⟨found, hfound, row, hrow, rfl, rfl⟩ := h
  obtain ⟨hmem, hid⟩ := Table.find?_eq_some.mp hrow
  refine ⟨List.mem_of_find?_eq_some hfound, ?_, ?_⟩
  · simpa using List.find?_some hfound
  · rw [← hid]
    exact hmem

end Accounts

end SmartPlanner
