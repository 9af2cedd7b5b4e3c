import SmartPlanner.Library.Outcome
import SmartPlanner.Library.Sessions
import Mathlib.Data.Nat.Init

/-!
Optimistic writes of versioned rows. A request reads the row it is about and
prepares a change of it; a second step applies the change where the row still
has the version the request expects. The row prepared from and the row written
to may differ, so that the version has to stand for the content.
-/

namespace Optimism

open Outcome Runs Sessions

variable {σ κ ω π ρ α ε γ : Type}

structure Optimistic (σ κ ω π ρ α ε γ : Type) where
  key : ω → κ
  expected : ω → ℕ
  request : π → ω
  row? : σ → κ → Option ρ
  version : ρ → ℕ
  read : σ → ω → Except ε π
  write : σ → π → Except ε (α × σ)
  other : σ → γ → σ

structure Reply (ω α ε : Type) where
  request : ω
  result : Except ε α

namespace Optimistic
variable (o : Optimistic σ κ ω π ρ α ε γ)

/-- Both steps, with nothing in between. -/
def attempt (s : σ) (request : ω) : Except ε (α × σ) := o.read s request >>= o.write s

def protocol : Protocol σ ω π (Reply ω α ε) γ where
  start s request :=
    match o.read s request with
    | .ok plan => (.inr plan, s)
    | .error e => (.inl ⟨request, .error e⟩, s)
  finish s plan :=
    match o.write s plan with
    | .ok made => (⟨o.request plan, .ok made.1⟩, made.2)
    | .error e => (⟨o.request plan, .error e⟩, s)
  other := o.other

/-- The request is granted: the row it expects becomes the next version. -/
structure Granted (won : ρ → ω → ρ → Prop) (closed : ρ → Prop) (s : σ) (request : ω) (s' : σ)
    (row row' : ρ) : Prop where
  before : o.row? s (o.key request) = some row
  expected : o.version row = o.expected request
  isOpen : ¬ closed row
  after : o.row? s' (o.key request) = some row'
  version : o.version row' = o.version row + 1
  won : won row request row'
  frame : ∀ k, k ≠ o.key request → o.row? s' k = o.row? s k

/-- `planned` tells from which row a plan was made, `won` what a granted request
makes of its row, and a `closed` row takes no requests. -/
structure Lawful (I : σ → Prop) (planned : ρ → π → Prop) (won : ρ → ω → ρ → Prop)
    (closed : ρ → Prop) : Prop where
  read : ∀ {s request plan}, I s → o.read s request = .ok plan → o.request plan = request ∧
    ∃ row, o.row? s (o.key request) = some row ∧ o.version row = o.expected request ∧
      planned row plan
  write : ∀ {s plan row answer s'}, I s → o.row? s (o.key (o.request plan)) = some row →
    (o.version row = o.expected (o.request plan) → planned row plan) →
    o.write s plan = .ok (answer, s') →
    I s' ∧ ∃ row', o.Granted won closed s (o.request plan) s' row row'
  other : ∀ {s} command, I s → I (o.other s command) ∧
    (∀ k row, o.row? s k = some row → o.row? (o.other s command) k = some row) ∧
    ∀ k row, o.row? s k = none → o.row? (o.other s command) k = some row → o.version row = 1

/-- The state before the `i`-th event. -/
def stateAt (start : σ) (events : List (Event ω γ)) (i : ℕ) : State σ π :=
  o.protocol.reached start (events.take i)

def rowAt? (start : σ) (events : List (Event ω γ)) (k : κ) (i : ℕ) : Option ρ :=
  o.row? (o.stateAt start events i).store k

/-- The `i`-th event gives this answer. -/
def AnswersAt (start : σ) (events : List (Event ω γ)) (request : ω) (result : Except ε α)
    (i : ℕ) : Prop :=
  FiresAt o.protocol.next (.idle start) events
    (fun state event => o.protocol.answer state event = some ⟨request, result⟩) i

/-- The versions of one row over a run. -/
structure Chain (won : ρ → ω → ρ → Prop) (closed : ρ → Prop) (start : σ)
    (events : List (Event ω γ)) (k : κ) : Prop where
  counted : ∀ i row, o.rowAt? start events k i = some row → 1 ≤ o.version row ∧
    ∀ v, 1 ≤ v → v ≤ o.version row → ∃ j ≤ i, ∃ row', o.rowAt? start events k j = some row' ∧
      o.version row' = v
  content : ∀ i j row row', o.rowAt? start events k i = some row →
    o.rowAt? start events k j = some row' → o.version row = o.version row' → row = row'
  linked : ∀ i j row row', o.rowAt? start events k i = some row →
    o.rowAt? start events k j = some row' → o.version row' = o.version row + 1 →
    ∃ request answer n, n < j ∧ o.key request = k ∧ o.expected request = o.version row ∧
      o.AnswersAt start events request (.ok answer) n ∧ won row request row'
  granted : ∀ request answer i, o.key request = k →
    o.AnswersAt start events request (.ok answer) i →
    ∃ row row', o.rowAt? start events k i = some row ∧ o.version row = o.expected request ∧
      ¬ closed row ∧ o.rowAt? start events k (i + 1) = some row' ∧
      o.version row' = o.version row + 1 ∧ won row request row'
  once : ∀ request answer request' answer' i j, o.key request = k → o.key request' = k →
    o.expected request = o.expected request' →
    o.AnswersAt start events request (.ok answer) i →
    o.AnswersAt start events request' (.ok answer') j → i = j
  refused : ∀ request e i, o.AnswersAt start events request (.error e) i →
    (o.stateAt start events (i + 1)).store = (o.stateAt start events i).store
  unmoved : ∀ i row, o.rowAt? start events k i = some row →
    (∀ request answer, o.key request = k → ¬ o.AnswersAt start events request (.ok answer) i) →
    o.rowAt? start events k (i + 1) = some row
  final : ∀ i row, o.rowAt? start events k i = some row → closed row →
    ∀ request answer j, o.key request = k → i ≤ j →
      ¬ o.AnswersAt start events request (.ok answer) j

/-- Rows keep their keys and their versions only rise. -/
def Rises (s s' : σ) : Prop :=
  ∀ k row, o.row? s k = some row →
    ∃ row', o.row? s' k = some row' ∧ (row' = row ∨ o.version row < o.version row')

/-- A plan fits its row as long as the row has the version it expects. -/
def Fits (planned : ρ → π → Prop) (s : σ) (plan : π) : Prop :=
  ∃ row, o.row? s (o.key (o.request plan)) = some row ∧
    o.expected (o.request plan) ≤ o.version row ∧
    (o.version row = o.expected (o.request plan) → planned row plan)

variable {o} {I : σ → Prop} {planned : ρ → π → Prop} {won : ρ → ω → ρ → Prop} {closed : ρ → Prop}
  {s s' : σ} {request : ω} {answer : α}

theorem Granted.rises {row row' : ρ} (granted : o.Granted won closed s request s' row row') :
    o.Rises s s' := by
  intro k old hold
  by_cases hk : k = o.key request
  · subst hk
    obtain rfl := Option.some.inj (granted.before.symm.trans hold)
    exact ⟨row', granted.after, Or.inr (granted.version ▸ Nat.lt_succ_self _)⟩
  · exact ⟨old, (granted.frame k hk).trans hold, Or.inl rfl⟩

theorem Rises.refl (s : σ) : o.Rises s s := fun _ row h => ⟨row, h, Or.inl rfl⟩

theorem Fits.mono {plan : π} (fits : o.Fits planned s plan) (rises : o.Rises s s') :
    o.Fits planned s' plan := by
  obtain ⟨row, hrow, hle, hplanned⟩ := fits
  obtain ⟨row', hrow', rfl | hlt⟩ := rises _ row hrow
  · exact ⟨row', hrow', hle, hplanned⟩
  · exact ⟨row', hrow', by omega, fun heq => by omega⟩

section
variable {plan : π} {e : ε}

theorem start_ok (h : o.read s request = .ok plan) :
    o.protocol.start s request = (.inr plan, s) := by
  simp only [protocol, h]

theorem start_error (h : o.read s request = .error e) :
    o.protocol.start s request = (.inl ⟨request, .error e⟩, s) := by
  simp only [protocol, h]

theorem finish_ok (h : o.write s plan = .ok (answer, s')) :
    o.protocol.finish s plan = (⟨o.request plan, .ok answer⟩, s') := by
  simp only [protocol, h]

theorem finish_error (h : o.write s plan = .error e) :
    o.protocol.finish s plan = (⟨o.request plan, .error e⟩, s) := by
  simp only [protocol, h]

/-- An attempt is a start that is finished at once. -/
theorem attempt_eq (s : σ) (request : ω) :
    o.attempt s request =
      match o.protocol.start s request with
      | (.inl reply, s') => reply.result.map fun answer => (answer, s')
      | (.inr plan, s') => (o.protocol.finish s' plan).1.result.map fun answer =>
          (answer, (o.protocol.finish s' plan).2) := by
  unfold attempt
  cases hread : o.read s request with
  | error e =>
      rw [start_error hread]
      rfl
  | ok plan =>
      rw [start_ok hread, ok_bind]
      simp only
      cases hwrite : o.write s plan with
      | error e =>
          rw [finish_error hwrite]
          rfl
      | ok made =>
          rw [finish_ok hwrite]
          rfl

end

theorem Lawful.keeps (lawful : o.Lawful I planned won closed) :
    o.protocol.Keeps I (o.Fits planned) (fun s s' => I s' ∧ o.Rises s s') where
  refl s inv := ⟨inv, .refl s⟩
  start s request inv := by
    cases hread : o.read s request with
    | ok plan =>
        rw [start_ok hread]
        exact ⟨inv, .refl s⟩
    | error e =>
        rw [start_error hread]
        exact ⟨inv, .refl s⟩
  started s request plan inv h := by
    cases hread : o.read s request with
    | error e =>
        rw [start_error hread] at h
        contradiction
    | ok made =>
        rw [start_ok hread, Sum.inr.injEq] at h
        rw [start_ok hread]
        subst h
        obtain ⟨hrequest, row, hrow, hversion, hplanned⟩ := lawful.read inv hread
        subst hrequest
        exact ⟨row, hrow, Nat.le_of_eq hversion.symm, fun _ => hplanned⟩
  finish s plan inv fits := by
    obtain ⟨row, hrow, -, hplanned⟩ := fits
    cases hwrite : o.write s plan with
    | error e =>
        rw [finish_error hwrite]
        exact ⟨inv, .refl s⟩
    | ok made =>
        rw [finish_ok hwrite]
        obtain ⟨hinv, row', granted⟩ := lawful.write inv hrow hplanned hwrite
        exact ⟨hinv, granted.rises⟩
  other s command inv := by
    obtain ⟨hinv, hkept, -⟩ := lawful.other command inv
    exact ⟨hinv, fun k row hrow => ⟨row, hkept k row hrow, Or.inl rfl⟩⟩
  store _ _ _ h := h.1
  entry _ _ _ _ fits h := fits.mono h.2

/-- What an event can do: grant the request it answers, or leave every row. -/
inductive Moved (o : Optimistic σ κ ω π ρ α ε γ) (won : ρ → ω → ρ → Prop) (closed : ρ → Prop)
    (s s' : σ) : Option (Reply ω α ε) → Prop
  | granted {request : ω} {answer : α} {row row' : ρ}
      (h : o.Granted won closed s request s' row row') :
      Moved o won closed s s' (some ⟨request, .ok answer⟩)
  | refused {request : ω} {e : ε} (h : s' = s) :
      Moved o won closed s s' (some ⟨request, .error e⟩)
  | silent (kept : ∀ k row, o.row? s k = some row → o.row? s' k = some row)
      (fresh : ∀ k row, o.row? s k = none → o.row? s' k = some row → o.version row = 1) :
      Moved o won closed s s' none

theorem moved_same (s : σ) : Moved o won closed s s none :=
  .silent (fun _ _ h => h) fun k row hnone hsome => by
    rw [hnone] at hsome
    contradiction

theorem Lawful.moved (lawful : o.Lawful I planned won closed) {state : State σ π}
    (safe : Protocol.Safe I (o.Fits planned) state) (event : Event ω γ) :
    Moved o won closed state.store (o.protocol.next state event).store
      (o.protocol.answer state event) := by
  cases event with
  | start client request =>
      cases hclient : state.pending client with
      | some plan =>
          rw [Protocol.next_busy hclient]
          simp only [Protocol.answer, hclient]
          exact moved_same _
      | none =>
          cases hread : o.read state.store request with
          | ok plan =>
              rw [Protocol.next_waiting hclient (start_ok hread)]
              simp only [Protocol.answer, hclient, start_ok hread]
              exact moved_same _
          | error e =>
              rw [Protocol.next_answered hclient (start_error hread)]
              simp only [Protocol.answer, hclient, start_error hread]
              exact .refused rfl
  | finish client =>
      cases hclient : state.pending client with
      | none =>
          rw [Protocol.next_free hclient]
          simp only [Protocol.answer, hclient]
          exact moved_same _
      | some plan =>
          rw [Protocol.next_finish hclient]
          simp only [Protocol.answer, hclient, Option.map_some]
          obtain ⟨row, hrow, -, hplanned⟩ := safe.pending client plan hclient
          cases hwrite : o.write state.store plan with
          | error e =>
              rw [finish_error hwrite]
              exact .refused rfl
          | ok made =>
              rw [finish_ok hwrite]
              obtain ⟨-, row', granted⟩ := lawful.write safe.store hrow hplanned hwrite
              exact .granted granted
  | other command =>
      obtain ⟨-, hkept, hfresh⟩ := lawful.other command safe.store
      exact .silent hkept hfresh

section
variable {start : σ} {events : List (Event ω γ)} {k : κ} {i j : ℕ} {row row' : ρ}
  (lawful : o.Lawful I planned won closed) (initial : I start)
include lawful initial

theorem Lawful.movedAt (events : List (Event ω γ)) (i : ℕ) :
    Moved o won closed (o.stateAt start events i).store (o.stateAt start events (i + 1)).store
      (events[i]?.bind (o.protocol.answer (o.stateAt start events i))) := by
  cases hevent : events[i]? with
  | none =>
      have hlength := List.getElem?_eq_none_iff.mp hevent
      unfold stateAt
      rw [List.take_of_length_le hlength, List.take_of_length_le (Nat.le_succ_of_le hlength)]
      exact moved_same _
  | some event =>
      have hnext : o.stateAt start events (i + 1) =
        o.protocol.next (o.stateAt start events i) event := run_take_succ hevent
      rw [hnext]
      exact lawful.moved (lawful.keeps.reached_safe initial (events.take i)) event

theorem Lawful.grantedAt {request : ω} {answer : α}
    (h : o.AnswersAt start events request (.ok answer) i) :
    ∃ row row', o.Granted won closed (o.stateAt start events i).store request
      (o.stateAt start events (i + 1)).store row row' := by
  obtain ⟨event, hevent, hanswer⟩ := h
  have moved := lawful.movedAt initial events i
  rw [hevent, Option.bind_some] at moved
  change o.protocol.answer (o.stateAt start events i) event = _ at hanswer
  rw [hanswer] at moved
  cases moved with
  | granted h => exact ⟨_, _, h⟩

/-- A row stays, or a request about it is granted. -/
theorem Lawful.rowAt_cases (h : o.rowAt? start events k i = some row) :
    o.rowAt? start events k (i + 1) = some row ∨
      ∃ request answer row', o.key request = k ∧
        o.AnswersAt start events request (.ok answer) i ∧
        o.Granted won closed (o.stateAt start events i).store request
          (o.stateAt start events (i + 1)).store row row' := by
  have moved := lawful.movedAt initial events i
  cases hanswer : events[i]?.bind (o.protocol.answer (o.stateAt start events i)) with
  | none =>
      rw [hanswer] at moved
      cases moved with
      | silent kept fresh => exact Or.inl (kept k row h)
  | some reply =>
      rw [hanswer] at moved
      obtain ⟨event, hevent, hreply⟩ := Option.bind_eq_some_iff.mp hanswer
      cases moved with
      | refused hsame =>
          unfold rowAt? at h ⊢
          exact Or.inl (hsame ▸ h)
      | @granted request answer old new granted =>
          by_cases hk : o.key request = k
          · subst hk
            obtain rfl := Option.some.inj (granted.before.symm.trans h)
            exact Or.inr ⟨request, answer, new, rfl, ⟨event, hevent, hreply⟩, granted⟩
          · exact Or.inl ((granted.frame k (Ne.symm hk)).trans h)

theorem Lawful.rowAt_fresh (hnone : o.rowAt? start events k i = none)
    (h : o.rowAt? start events k (i + 1) = some row) : o.version row = 1 := by
  have moved := lawful.movedAt initial events i
  cases hanswer : events[i]?.bind (o.protocol.answer (o.stateAt start events i)) with
  | none =>
      rw [hanswer] at moved
      cases moved with
      | silent kept fresh => exact fresh k row hnone h
  | some reply =>
      rw [hanswer] at moved
      unfold rowAt? at hnone h
      cases moved with
      | refused hsame =>
          rw [hsame, hnone] at h
          contradiction
      | @granted request answer old new granted =>
          by_cases hk : o.key request = k
          · subst hk
            rw [granted.before] at hnone
            contradiction
          · rw [granted.frame k (Ne.symm hk), hnone] at h
            contradiction

theorem Lawful.rowAt_rises (h : o.rowAt? start events k i = some row) (hle : i ≤ j) :
    ∃ row', o.rowAt? start events k j = some row' ∧
      (row' = row ∨ o.version row < o.version row') := by
  induction j, hle using Nat.le_induction with
  | base => exact ⟨row, h, Or.inl rfl⟩
  | succ j hle ih =>
      obtain ⟨middle, hmiddle, hrises⟩ := ih
      rcases lawful.rowAt_cases initial hmiddle with hstays | ⟨request, -, row', rfl, -, granted⟩
      · exact ⟨middle, hstays, hrises⟩
      · refine ⟨row', granted.after, Or.inr ?_⟩
        rw [granted.version]
        rcases hrises with rfl | hlt
        · exact Nat.lt_succ_self _
        · exact Nat.lt_succ_of_lt hlt

/-- The version of a row stands for its content. -/
theorem Lawful.rowAt_content (h : o.rowAt? start events k i = some row)
    (h' : o.rowAt? start events k j = some row') (hversion : o.version row = o.version row') :
    row = row' := by
  rcases Nat.le_total i j with hle | hle
  · obtain ⟨later, hlater, rfl | hlt⟩ := lawful.rowAt_rises initial h hle
    · exact Option.some.inj (hlater.symm.trans h')
    · obtain rfl := Option.some.inj (hlater.symm.trans h')
      omega
  · obtain ⟨later, hlater, rfl | hlt⟩ := lawful.rowAt_rises initial h' hle
    · exact (Option.some.inj (hlater.symm.trans h)).symm
    · obtain rfl := Option.some.inj (hlater.symm.trans h)
      omega

theorem Lawful.rowAt_counted (empty : ∀ k, o.row? start k = none)
    (h : o.rowAt? start events k i = some row) : 1 ≤ o.version row ∧
    ∀ v, 1 ≤ v → v ≤ o.version row → ∃ j ≤ i, ∃ row', o.rowAt? start events k j = some row' ∧
      o.version row' = v := by
  induction i generalizing row with
  | zero =>
      have hnone : o.rowAt? start events k 0 = none := empty k
      rw [hnone] at h
      contradiction
  | succ i ih =>
      have widen : ∀ {v : ℕ}, (∃ j ≤ i, ∃ row', o.rowAt? start events k j = some row' ∧
          o.version row' = v) → ∃ j ≤ i + 1, ∃ row', o.rowAt? start events k j = some row' ∧
          o.version row' = v := fun ⟨j, hle, hrow⟩ => ⟨j, Nat.le_succ_of_le hle, hrow⟩
      cases hbefore : o.rowAt? start events k i with
      | none =>
          have hone := lawful.rowAt_fresh initial hbefore h
          refine ⟨Nat.le_of_eq hone.symm, fun v hpos hle => ⟨i + 1, Nat.le_refl _, row, h, ?_⟩⟩
          omega
      | some old =>
          obtain ⟨hpos, hcount⟩ := ih hbefore
          rcases lawful.rowAt_cases initial hbefore with hstays | ⟨request, -, new, rfl, -, granted⟩
          · obtain rfl := Option.some.inj (hstays.symm.trans h)
            exact ⟨hpos, fun v hv hle => widen (hcount v hv hle)⟩
          · obtain rfl := Option.some.inj (granted.after.symm.trans h)
            have hversion := granted.version
            refine ⟨by omega, fun v hv hle => ?_⟩
            by_cases hlast : v = o.version new
            · exact ⟨i + 1, Nat.le_refl _, new, h, hlast.symm⟩
            · exact widen (hcount v hv (by omega))

/-- Between a version and the next lies the request that won it. -/
theorem Lawful.rowAt_linked (h : o.rowAt? start events k i = some row)
    (h' : o.rowAt? start events k j = some row') (hnext : o.version row' = o.version row + 1) :
    ∃ request answer n, n < j ∧ o.key request = k ∧ o.expected request = o.version row ∧
      o.AnswersAt start events request (.ok answer) n ∧ won row request row' := by
  have hle : i ≤ j := by
    by_contra hlt
    obtain ⟨later, hlater, hrises⟩ := lawful.rowAt_rises initial h' (Nat.le_of_not_le hlt)
    obtain rfl := Option.some.inj (hlater.symm.trans h)
    rcases hrises with rfl | hrises <;> omega
  induction j, hle using Nat.le_induction generalizing row' with
  | base =>
      obtain rfl := Option.some.inj (h.symm.trans h')
      omega
  | succ j hle ih =>
      obtain ⟨middle, hmiddle, -⟩ := lawful.rowAt_rises initial h hle
      rcases lawful.rowAt_cases initial hmiddle with
        hstays | ⟨request, answer, new, rfl, hanswer, granted⟩
      · obtain rfl := Option.some.inj (hstays.symm.trans h')
        obtain ⟨request, answer, n, hn, hrest⟩ := ih hmiddle hnext
        exact ⟨request, answer, n, Nat.lt_succ_of_lt hn, hrest⟩
      · obtain rfl := Option.some.inj (granted.after.symm.trans h')
        have hversion := granted.version
        obtain rfl := lawful.rowAt_content initial hmiddle h (by omega)
        exact ⟨request, answer, j, Nat.lt_succ_self j, rfl, granted.expected.symm, hanswer,
          granted.won⟩

theorem Lawful.rowAt_closed (h : o.rowAt? start events k i = some row) (hclosed : closed row)
    (hle : i ≤ j) : o.rowAt? start events k j = some row := by
  induction j, hle using Nat.le_induction with
  | base => exact h
  | succ j hle ih =>
      rcases lawful.rowAt_cases initial ih with hstays | ⟨request, -, row', -, -, granted⟩
      · exact hstays
      · exact absurd hclosed granted.isOpen

theorem Lawful.chain (empty : ∀ k, o.row? start k = none) (events : List (Event ω γ)) (k : κ) :
    o.Chain won closed start events k where
  counted i row h := lawful.rowAt_counted initial empty h
  content i j row row' h h' := lawful.rowAt_content initial h h'
  linked i j row row' h h' := lawful.rowAt_linked initial h h'
  granted := by
    rintro request answer i rfl h
    obtain ⟨row, row', granted⟩ := lawful.grantedAt initial h
    exact ⟨row, row', granted.before, granted.expected, granted.isOpen, granted.after,
      granted.version, granted.won⟩
  once := by
    have later : ∀ {request answer request' answer' i j}, o.key request = o.key request' →
        o.expected request = o.expected request' → i < j →
        o.AnswersAt start events request (.ok answer) i →
        ¬ o.AnswersAt start events request' (.ok answer') j := by
      intro request answer request' answer' i j hkey hexpected hlt h h'
      obtain ⟨row, row', granted⟩ := lawful.grantedAt initial h
      obtain ⟨next, next', granted'⟩ := lawful.grantedAt initial h'
      obtain ⟨last, hlast, hrises⟩ := lawful.rowAt_rises initial granted.after hlt
      rw [hkey] at hlast
      obtain rfl := Option.some.inj (granted'.before.symm.trans hlast)
      have hversion := granted.version
      have hbefore := granted.expected
      have hafter := granted'.expected
      rcases hrises with rfl | hrises <;> omega
    rintro request answer request' answer' i j rfl hkey hexpected h h'
    rcases Nat.lt_trichotomy i j with hlt | rfl | hlt
    · exact absurd h' (later hkey.symm hexpected hlt h)
    · rfl
    · exact absurd h (later hkey hexpected.symm hlt h')
  refused := by
    rintro request e i ⟨event, hevent, hanswer⟩
    have moved := lawful.movedAt initial events i
    rw [hevent, Option.bind_some] at moved
    change o.protocol.answer (o.stateAt start events i) event = _ at hanswer
    rw [hanswer] at moved
    cases moved with
    | refused h => exact h
  unmoved i row h hnone := by
    rcases lawful.rowAt_cases initial h with hstays | ⟨request, answer, -, hkey, hanswer, -⟩
    · exact hstays
    · exact absurd hanswer (hnone request answer hkey)
  final := by
    rintro i row h hclosed request answer j rfl hle hanswer
    obtain ⟨before, after, granted⟩ := lawful.grantedAt initial hanswer
    have hrow := lawful.rowAt_closed initial h hclosed hle
    obtain rfl := Option.some.inj (granted.before.symm.trans hrow)
    exact granted.isOpen hclosed

end

end Optimistic

end Optimism
