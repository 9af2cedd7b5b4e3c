import SmartPlanner.Library.Outcome
import SmartPlanner.Library.Sessions

/-!
Creation under a request key. An attempt whose payload passes the checks of a row
inserts it unless one has the key; an attempt that added no row reads one back in
a second step and compares its own payload with the one the row was created with.
Between the steps the row may be edited or deleted, and rows without a payload
may appear.
-/

namespace CreateOnce

open Outcome Runs Sessions

variable {σ κ ω δ ι ρ α ε γ ν : Type}

structure Creation (σ κ ω δ ι ρ α ε γ ν : Type) where
  key : ω → δ → κ
  vet : δ → Except ε Unit
  row? : σ → κ → Option ρ
  admits : σ → ω → Bool
  digest : ρ → Option δ
  deleted : ρ → Bool
  ident : ρ → ν
  content : ρ → Except ε α
  identOf : α → ν
  insert : σ → ω → δ → ι → Except ε (ρ × σ)
  other : σ → γ → σ
  conflict : ε
  gone : ε

/-- The answer to one attempt; the flag tells a replay. -/
structure Reply (ω δ α ε : Type) where
  sender : ω
  payload : δ
  result : Except ε (α × Bool)

namespace Creation
variable (c : Creation σ κ ω δ ι ρ α ε γ ν)

/-- A later state of a row: a deleted one does not change. -/
structure Follows (row row' : ρ) : Prop where
  ident : c.ident row' = c.ident row
  digest : c.digest row' = c.digest row
  deleted : c.deleted row = true → row' = row

/-- Rows stay under their keys. -/
def RowsFollow (s s' : σ) : Prop :=
  ∀ k row, c.row? s k = some row → ∃ row', c.row? s' k = some row' ∧ c.Follows row row'

structure Lawful (I : σ → Prop) : Prop where
  insert : ∀ {s sender payload draw row s'}, I s → c.row? s (c.key sender payload) = none →
    c.insert s sender payload draw = .ok (row, s') →
    I s' ∧ c.row? s' (c.key sender payload) = some row ∧ c.digest row = some payload ∧
      ∀ k, k ≠ c.key sender payload → c.row? s' k = c.row? s k
  other : ∀ {s} command, I s → I (c.other s command) ∧ c.RowsFollow s (c.other s command)
  unasked : ∀ {s} command {k row}, I s → c.row? s k = none →
    c.row? (c.other s command) k = some row → c.digest row = none
  content : ∀ {row answer}, c.content row = .ok answer → c.identOf answer = c.ident row

/-- Whether the insert adds a row: the sender may have rows and none has the key. -/
def inserts (s : σ) (sender : ω) (payload : δ) : Bool :=
  (c.row? s (c.key sender payload)).isNone && c.admits s sender

def create (s : σ) (sender : ω) (payload : δ) (draw : ι) : Except ε (α × σ) := do
  let (row, s') ← c.insert s sender payload draw
  let answer ← c.content row
  return (answer, s')

section
variable {c}

theorem Follows.refl (row : ρ) : c.Follows row row := ⟨rfl, rfl, fun _ => rfl⟩

theorem Follows.trans {a b d : ρ} (first : c.Follows a b) (second : c.Follows b d) :
    c.Follows a d where
  ident := second.ident.trans first.ident
  digest := second.digest.trans first.digest
  deleted h := by
    have hb := first.deleted h
    subst hb
    exact second.deleted h

theorem RowsFollow.refl (s : σ) : c.RowsFollow s s := fun _ row h => ⟨row, h, .refl row⟩

theorem RowsFollow.trans {s s' s'' : σ} (first : c.RowsFollow s s') (second : c.RowsFollow s' s'') :
    c.RowsFollow s s'' := by
  intro k a ha
  obtain ⟨b, hb, hfirst⟩ := first k a ha
  obtain ⟨d, hd, hsecond⟩ := second k b hb
  exact ⟨d, hd, hfirst.trans hsecond⟩

/-- A successful insert, with the row it left. -/
theorem Lawful.create {I : σ → Prop} {s s' : σ} {sender : ω} {payload : δ} {draw : ι} {answer : α}
    (lawful : c.Lawful I) (inv : I s)
    (free : c.row? s (c.key sender payload) = none)
    (h : c.create s sender payload draw = .ok (answer, s')) :
    I s' ∧ c.RowsFollow s s' ∧ ∃ row, c.row? s' (c.key sender payload) = some row ∧
      c.digest row = some payload ∧ c.content row = .ok answer ∧
      ∀ k, k ≠ c.key sender payload → c.row? s' k = c.row? s k := by
  unfold Creation.create at h
  simp only [bind_ok, pure_eq_ok, Except.ok.injEq, Prod.mk.injEq] at h
  obtain ⟨⟨row, made⟩, hinsert, content, hcontent, rfl, rfl⟩ := h
  obtain ⟨hinv, hrow, hdigest, hframe⟩ := lawful.insert inv free hinsert
  refine ⟨hinv, fun k old hold => ⟨old, ?_, .refl old⟩, row, hrow, hdigest, hcontent, hframe⟩
  by_cases hk : k = c.key sender payload
  · rw [hk, free] at hold
    contradiction
  · exact (hframe k hk).trans hold

end

variable [DecidableEq δ]

def readBack (s : σ) (sender : ω) (payload : δ) : Except ε α :=
  match c.row? s (c.key sender payload) with
  | none => .error c.conflict
  | some row => do
      raiseIf (c.digest row ≠ some payload) c.conflict
      raiseIf (c.deleted row = true) c.gone
      c.content row

/-- Both steps, with nothing in between. -/
def attempt (s : σ) (sender : ω) (payload : δ) (draw : ι) : Except ε ((α × Bool) × σ) := do
  c.vet payload
  if c.inserts s sender payload then
    (c.create s sender payload draw).map fun made => ((made.1, false), made.2)
  else (c.readBack s sender payload).map fun answer => ((answer, true), s)

def protocol : Protocol σ (ω × δ × ι) (ω × δ) (Reply ω δ α ε) γ where
  start s request :=
    match c.vet request.2.1 with
    | .error e => (.inl ⟨request.1, request.2.1, .error e⟩, s)
    | .ok _ =>
        if c.inserts s request.1 request.2.1 then
          match c.create s request.1 request.2.1 request.2.2 with
          | .ok made => (.inl ⟨request.1, request.2.1, .ok (made.1, false)⟩, made.2)
          | .error e => (.inl ⟨request.1, request.2.1, .error e⟩, s)
        else (.inr (request.1, request.2.1), s)
  finish s entry :=
    (⟨entry.1, entry.2, (c.readBack s entry.1 entry.2).map fun answer => (answer, true)⟩, s)
  other := c.other

theorem attempt_of_vetoed {s : σ} {sender : ω} {payload : δ} {draw : ι} {e : ε}
    (vetoed : c.vet payload = .error e) : c.attempt s sender payload draw = .error e := by
  simp only [attempt, vetoed, error_bind]

theorem attempt_of_free {s : σ} {sender : ω} {payload : δ} {draw : ι}
    (vetted : c.vet payload = .ok ()) (free : c.row? s (c.key sender payload) = none)
    (admitted : c.admits s sender = true) :
    c.attempt s sender payload draw =
      (c.create s sender payload draw).map fun made => ((made.1, false), made.2) := by
  simp only [attempt, vetted, ok_bind, inserts, free, admitted, Option.isNone_none, Bool.and_self,
    if_true]

theorem attempt_of_row {s : σ} {sender : ω} {payload : δ} {draw : ι} {row : ρ}
    (vetted : c.vet payload = .ok ()) (taken : c.row? s (c.key sender payload) = some row) :
    c.attempt s sender payload draw = (do
      raiseIf (c.digest row ≠ some payload) c.conflict
      raiseIf (c.deleted row = true) c.gone
      c.content row : Except ε α).map fun answer => ((answer, true), s) := by
  simp only [attempt, vetted, ok_bind, inserts, readBack, taken, Option.isNone_some,
    Bool.false_and, if_false, Bool.false_eq_true]

/-- Nothing to add and nothing to read. -/
theorem attempt_of_refused {s : σ} {sender : ω} {payload : δ} {draw : ι}
    (vetted : c.vet payload = .ok ()) (free : c.row? s (c.key sender payload) = none)
    (refused : c.admits s sender = false) :
    c.attempt s sender payload draw = .error c.conflict := by
  simp only [attempt, vetted, ok_bind, inserts, readBack, free, refused, Option.isNone_none,
    Bool.and_false, if_false, Bool.false_eq_true]
  rfl

/-- An attempt is a start that is finished at once. -/
theorem attempt_eq (s : σ) (sender : ω) (payload : δ) (draw : ι) :
    c.attempt s sender payload draw =
      match c.protocol.start s (sender, payload, draw) with
      | (.inl reply, s') => reply.result.map fun answer => (answer, s')
      | (.inr entry, s') => (c.protocol.finish s' entry).1.result.map fun answer =>
          (answer, (c.protocol.finish s' entry).2) := by
  unfold attempt protocol
  cases hvet : c.vet payload with
  | error e =>
      simp only [hvet]
      rfl
  | ok passed =>
      simp only [hvet, ok_bind]
      by_cases h : c.inserts s sender payload = true
      · simp only [h, if_true]
        cases c.create s sender payload draw with
        | ok made => rfl
        | error e => rfl
      · simp only [h, if_false, Bool.false_eq_true]
        cases c.readBack s sender payload with
        | ok answer => rfl
        | error e => rfl

/-- The state before the `i`-th event. -/
def stateAt (start : σ) (events : List (Event (ω × δ × ι) γ)) (i : ℕ) : State σ (ω × δ) :=
  c.protocol.reached start (events.take i)

/-- The `i`-th event gives this answer. -/
def AnswersAt (start : σ) (events : List (Event (ω × δ × ι) γ)) (reply : Reply ω δ α ε)
    (i : ℕ) : Prop :=
  FiresAt c.protocol.next (.idle start) events
    (fun state event => c.protocol.answer state event = some reply) i

/-- The event is an attempt whose payload is refused. -/
def Vetoed (sender : ω) (payload : δ) (e : ε) (state : State σ (ω × δ))
    (event : Event (ω × δ × ι) γ) : Prop :=
  ∃ client draw, event = .start client (sender, payload, draw) ∧ state.pending client = none ∧
    c.vet payload = .error e

/-- The `i`-th event is such an attempt. -/
def VetoedAt (start : σ) (events : List (Event (ω × δ × ι) γ)) (sender : ω) (payload : δ) (e : ε)
    (i : ℕ) : Prop :=
  FiresAt c.protocol.next (.idle start) events (c.Vetoed sender payload e) i

/-- Payloads are refused only under keys that have no row. -/
def VetoesFree (start : σ) (events : List (Event (ω × δ × ι) γ)) : Prop :=
  ∀ sender payload e i, c.VetoedAt start events sender payload e i →
    c.row? (c.stateAt start events i).store (c.key sender payload) = none

/-- Creation happens once, and every other success reads the row it made. -/
structure MadeOnce (start : σ) (events : List (Event (ω × δ × ι) γ)) : Prop where
  once : ∀ sender payload answer sender' payload' answer' i j,
    c.key sender payload = c.key sender' payload' →
    c.AnswersAt start events ⟨sender, payload, .ok (answer, false)⟩ i →
    c.AnswersAt start events ⟨sender', payload', .ok (answer', false)⟩ j → i = j
  first : ∀ sender payload answer j,
    c.AnswersAt start events ⟨sender, payload, .ok (answer, true)⟩ j →
    ∃ i < j, ∃ sender' answer', c.key sender' payload = c.key sender payload ∧
      c.AnswersAt start events ⟨sender', payload, .ok (answer', false)⟩ i
  oneRow : ∀ k row row' i j, c.row? (c.stateAt start events i).store k = some row →
    c.row? (c.stateAt start events j).store k = some row' → c.ident row = c.ident row'
  returned : ∀ sender payload answer flag row i j,
    c.AnswersAt start events ⟨sender, payload, .ok (answer, flag)⟩ i →
    c.row? (c.stateAt start events j).store (c.key sender payload) = some row →
    c.identOf answer = c.ident row
  stored : ∀ sender payload answer flag i,
    c.AnswersAt start events ⟨sender, payload, .ok (answer, flag)⟩ i →
    ∃ row, c.row? (c.stateAt start events (i + 1)).store (c.key sender payload) = some row ∧
      c.content row = .ok answer
  unchanged : ∀ sender payload answer i,
    c.AnswersAt start events ⟨sender, payload, .ok (answer, true)⟩ i →
    (c.stateAt start events (i + 1)).store = (c.stateAt start events i).store
  stays : ∀ k row i j, c.row? (c.stateAt start events i).store k = some row →
    c.deleted row = true → i ≤ j →
    c.row? (c.stateAt start events j).store k = some row ∧
    ∀ sender payload result, c.AnswersAt start events ⟨sender, payload, result⟩ j →
      c.key sender payload = k → ∃ e, result = .error e

/-- Every answer that is no creation is a comparison with one. -/
structure Once (start : σ) (events : List (Event (ω × δ × ι) γ)) : Prop
    extends c.MadeOnce start events where
  conflict : ∀ sender payload result row i j,
    c.row? (c.stateAt start events i).store (c.key sender payload) = some row →
    c.digest row ≠ some payload → i ≤ j → c.AnswersAt start events ⟨sender, payload, result⟩ j →
    result = .error c.conflict
  otherPayload : ∀ sender payload answer sender' payload' result i j,
    c.AnswersAt start events ⟨sender, payload, .ok (answer, false)⟩ i → i < j →
    c.AnswersAt start events ⟨sender', payload', result⟩ j →
    c.key sender payload = c.key sender' payload' → payload' ≠ payload →
    result = .error c.conflict
  gone : ∀ k row i j, c.row? (c.stateAt start events i).store k = some row →
    c.deleted row = true → i ≤ j →
    ∀ sender payload result, c.AnswersAt start events ⟨sender, payload, result⟩ j →
      c.key sender payload = k → result = .error c.conflict ∨ result = .error c.gone

variable {c} {I : σ → Prop} {s s' : σ} {sender : ω} {payload : δ} {answer : α}

theorem readBack_ok (h : c.readBack s sender payload = .ok answer) :
    ∃ row, c.row? s (c.key sender payload) = some row ∧ c.digest row = some payload ∧
      c.deleted row = false ∧ c.content row = .ok answer := by
  unfold readBack at h
  cases hrow : c.row? s (c.key sender payload) with
  | none =>
      rw [hrow] at h
      contradiction
  | some row =>
      rw [hrow] at h
      simp only [raiseIf_bind_ok, ne_eq, not_not, Bool.not_eq_true] at h
      exact ⟨row, rfl, h.1, h.2.1, h.2.2⟩

theorem readBack_of_digest {row : ρ} (hrow : c.row? s (c.key sender payload) = some row)
    (hne : c.digest row ≠ some payload) : c.readBack s sender payload = .error c.conflict := by
  unfold readBack
  rw [hrow]
  exact bind_error.mpr (Or.inl (raiseIf_error.mpr ⟨hne, rfl⟩))

theorem readBack_of_deleted {row : ρ} (hrow : c.row? s (c.key sender payload) = some row)
    (hdeleted : c.deleted row = true) :
    c.readBack s sender payload = .error c.conflict ∨
      c.readBack s sender payload = .error c.gone := by
  by_cases hdigest : c.digest row = some payload
  · right
    unfold readBack
    rw [hrow]
    exact bind_error.mpr (Or.inr ⟨⟨⟩, raiseIf_ok.mpr (not_not.mpr hdigest),
      bind_error.mpr (Or.inl (raiseIf_error.mpr ⟨hdeleted, rfl⟩))⟩)
  · exact Or.inl (readBack_of_digest hrow hdigest)

/-- What a start did to the store. -/
inductive Started (c : Creation σ κ ω δ ι ρ α ε γ ν) (s : σ) (sender : ω) (payload : δ) :
    (Reply ω δ α ε ⊕ (ω × δ)) × σ → Prop
  | vetoed {e : ε} (h : c.vet payload = .error e) :
      Started c s sender payload (.inl ⟨sender, payload, .error e⟩, s)
  | waiting : Started c s sender payload (.inr (sender, payload), s)
  | created {draw : ι} {answer : α} {s' : σ} (vetted : c.vet payload = .ok ())
      (free : c.row? s (c.key sender payload) = none)
      (h : c.create s sender payload draw = .ok (answer, s')) :
      Started c s sender payload (.inl ⟨sender, payload, .ok (answer, false)⟩, s')
  | failed {e : ε} (free : c.row? s (c.key sender payload) = none) :
      Started c s sender payload (.inl ⟨sender, payload, .error e⟩, s)

theorem started (s : σ) (request : ω × δ × ι) :
    Started c s request.1 request.2.1 (c.protocol.start s request) := by
  unfold protocol
  cases hvet : c.vet request.2.1 with
  | error e =>
      simp only [hvet]
      exact .vetoed hvet
  | ok passed =>
      simp only [hvet]
      by_cases h : c.inserts s request.1 request.2.1 = true
      · have free : c.row? s (c.key request.1 request.2.1) = none := by
          simp only [inserts, Bool.and_eq_true, Option.isNone_iff_eq_none] at h
          exact h.1
        simp only [h, if_true]
        cases hcreate : c.create s request.1 request.2.1 request.2.2 with
        | ok made => exact .created hvet free hcreate
        | error e => exact .failed free
      · simp only [h, if_false, Bool.false_eq_true]
        exact .waiting

theorem Lawful.keeps (lawful : c.Lawful I) :
    c.protocol.Keeps I (fun _ _ => True) (fun s s' => I s' ∧ c.RowsFollow s s') where
  refl s inv := ⟨inv, .refl s⟩
  start s request inv := by
    have h := c.started s request
    generalize c.protocol.start s request = reply at h
    cases h with
    | vetoed => exact ⟨inv, .refl s⟩
    | waiting => exact ⟨inv, .refl s⟩
    | failed => exact ⟨inv, .refl s⟩
    | created vetted free h =>
        obtain ⟨hinv, hrows, -⟩ := lawful.create inv free h
        exact ⟨hinv, hrows⟩
  started _ _ _ _ _ := trivial
  finish s _ inv _ := ⟨inv, .refl s⟩
  other s command inv := lawful.other command inv
  store _ _ _ h := h.1
  entry _ _ _ _ _ _ := trivial

/-- Where an answer comes from: a row made, a failed insert, a payload refused, or
a row read. -/
theorem answer_cases {state : State σ (ω × δ)} {event : Event (ω × δ × ι) γ}
    {result : Except ε (α × Bool)}
    (h : c.protocol.answer state event = some ⟨sender, payload, result⟩) :
    (∃ draw answer, c.vet payload = .ok () ∧
      c.row? state.store (c.key sender payload) = none ∧
      result = .ok (answer, false) ∧ c.create state.store sender payload draw =
        .ok (answer, (c.protocol.next state event).store)) ∨
    (∃ e, c.row? state.store (c.key sender payload) = none ∧ result = .error e ∧
      (c.protocol.next state event).store = state.store) ∨
    (∃ e, c.Vetoed sender payload e state event ∧ result = .error e ∧
      (c.protocol.next state event).store = state.store) ∨
    (result = (c.readBack state.store sender payload).map (fun answer => (answer, true)) ∧
      (c.protocol.next state event).store = state.store) := by
  rcases Protocol.answer_eq_some.mp h with ⟨client, request, store, rfl, hfree, hstart⟩ |
    ⟨client, entry, rfl, hbusy, hfinish⟩
  · have hstarted := c.started state.store request
    rw [hstart] at hstarted
    rw [Protocol.next_answered hfree hstart]
    cases hstarted with
    | vetoed hvet =>
        exact Or.inr (Or.inr (Or.inl ⟨_, ⟨client, request.2.2, rfl, hfree, hvet⟩, rfl, rfl⟩))
    | created vetted free h => exact Or.inl ⟨_, _, vetted, free, rfl, h⟩
    | failed free => exact Or.inr (Or.inl ⟨_, free, rfl, rfl⟩)
  · rw [Protocol.next_finish hbusy]
    simp only [protocol, Reply.mk.injEq] at hfinish
    obtain ⟨rfl, rfl, rfl⟩ := hfinish
    exact Or.inr (Or.inr (Or.inr ⟨rfl, rfl⟩))

section
variable {start : σ} {events : List (Event (ω × δ × ι) γ)} {i j : ℕ} {result : Except ε (α × Bool)}

theorem Lawful.stateAt_safe (lawful : c.Lawful I) (initial : I start)
    (events : List (Event (ω × δ × ι) γ)) (i : ℕ) :
    Protocol.Safe I (fun _ _ => True) (c.stateAt start events i) :=
  lawful.keeps.reached_safe initial (events.take i)

theorem Lawful.rows_follow (lawful : c.Lawful I) (initial : I start) (hle : i ≤ j) :
    c.RowsFollow (c.stateAt start events i).store (c.stateAt start events j).store := by
  have safe := lawful.stateAt_safe initial events i
  unfold stateAt Protocol.reached at safe ⊢
  rw [run_take_le events hle]
  generalize run c.protocol.next (.idle start) (events.take i) = before at safe ⊢
  refine (run_invariant (I := fun state => Protocol.Safe I (fun _ _ => True) state ∧
    c.RowsFollow before.store state.store) ⟨safe, .refl _⟩ (fun state event h => ?_) _).2
  exact ⟨lawful.keeps.next_safe h.1 event, h.2.trans (lawful.keeps.next_store h.1 event).2⟩

theorem AnswersAt.cases (h : c.AnswersAt start events ⟨sender, payload, result⟩ i) :
    (∃ draw answer, c.vet payload = .ok () ∧
      c.row? (c.stateAt start events i).store (c.key sender payload) = none ∧
      result = .ok (answer, false) ∧ c.create (c.stateAt start events i).store sender payload draw =
        .ok (answer, (c.stateAt start events (i + 1)).store)) ∨
    (∃ e, c.row? (c.stateAt start events i).store (c.key sender payload) = none ∧
      result = .error e ∧
      (c.stateAt start events (i + 1)).store = (c.stateAt start events i).store) ∨
    (∃ e, c.VetoedAt start events sender payload e i ∧ result = .error e ∧
      (c.stateAt start events (i + 1)).store = (c.stateAt start events i).store) ∨
    (result = (c.readBack (c.stateAt start events i).store sender payload).map
        (fun answer => (answer, true)) ∧
      (c.stateAt start events (i + 1)).store = (c.stateAt start events i).store) := by
  obtain ⟨event, hevent, hanswer⟩ := h
  have hnext : c.stateAt start events (i + 1) = c.protocol.next (c.stateAt start events i) event :=
    run_take_succ hevent
  rw [hnext]
  exact (answer_cases hanswer).imp_right <| Or.imp_right <| Or.imp_left
    fun ⟨e, hvetoed, hresult⟩ => ⟨e, ⟨event, hevent, hvetoed⟩, hresult⟩

/-- A refused payload is answered at once. -/
theorem VetoedAt.answers {e : ε} (h : c.VetoedAt start events sender payload e i) :
    c.AnswersAt start events ⟨sender, payload, .error e⟩ i := by
  obtain ⟨event, hevent, client, draw, rfl, hfree, hvet⟩ := h
  have hstart : c.protocol.start (c.stateAt start events i).store (sender, payload, draw) =
      (.inl ⟨sender, payload, .error e⟩, (c.stateAt start events i).store) := by
    simp only [protocol, hvet]
  exact ⟨_, hevent, Protocol.answer_eq_some.mpr (Or.inl ⟨client, _, _, rfl, hfree, hstart⟩)⟩

/-- The read that a successful answer with a replay flag rests on. -/
theorem AnswersAt.readBack {flag : Bool} (h : c.AnswersAt start events
      ⟨sender, payload, .ok (answer, flag)⟩ i) :
    (flag = false ∧ ∃ draw, c.vet payload = .ok () ∧
      c.row? (c.stateAt start events i).store (c.key sender payload) = none ∧
      c.create (c.stateAt start events i).store sender payload draw =
        .ok (answer, (c.stateAt start events (i + 1)).store)) ∨
    (flag = true ∧ c.readBack (c.stateAt start events i).store sender payload = .ok answer ∧
      (c.stateAt start events (i + 1)).store = (c.stateAt start events i).store) := by
  rcases h.cases with ⟨draw, made, hvet, hfree, hresult, hcreate⟩ | ⟨e, -, hresult, -⟩ |
    ⟨e, -, hresult, -⟩ | ⟨hresult, hstore⟩
  · simp only [Except.ok.injEq, Prod.mk.injEq] at hresult
    obtain ⟨rfl, rfl⟩ := hresult
    exact Or.inl ⟨rfl, draw, hvet, hfree, hcreate⟩
  · contradiction
  · contradiction
  · cases hread : c.readBack (c.stateAt start events i).store sender payload with
    | error e =>
        rw [hread] at hresult
        contradiction
    | ok shown =>
        rw [hread] at hresult
        simp only [map_ok, Except.ok.injEq, Prod.mk.injEq] at hresult
        obtain ⟨rfl, rfl⟩ := hresult
        exact Or.inr ⟨rfl, rfl, hstore⟩

/-- The row that a successful answer shows. -/
theorem AnswersAt.row {flag : Bool} (lawful : c.Lawful I) (initial : I start)
    (h : c.AnswersAt start events ⟨sender, payload, .ok (answer, flag)⟩ i) :
    ∃ row, c.row? (c.stateAt start events (i + 1)).store (c.key sender payload) = some row ∧
      c.digest row = some payload ∧ c.content row = .ok answer := by
  rcases h.readBack with ⟨-, draw, -, hfree, hcreate⟩ | ⟨-, hread, hstore⟩
  · obtain ⟨-, -, row, hrow, hdigest, hcontent, -⟩ :=
      lawful.create (lawful.stateAt_safe initial events i).store hfree hcreate
    exact ⟨row, hrow, hdigest, hcontent⟩
  · obtain ⟨row, hrow, hdigest, -, hcontent⟩ := readBack_ok hread
    exact ⟨row, hstore ▸ hrow, hdigest, hcontent⟩

/-- A creation passed the checks and found its key free. -/
theorem AnswersAt.free (h : c.AnswersAt start events ⟨sender, payload, .ok (answer, false)⟩ i) :
    c.vet payload = .ok () ∧
      c.row? (c.stateAt start events i).store (c.key sender payload) = none := by
  rcases h.readBack with ⟨-, draw, hvet, hfree, -⟩ | ⟨hflag, -⟩
  · exact ⟨hvet, hfree⟩
  · contradiction

/-- A replay finds a row created with its payload. -/
theorem AnswersAt.replayed (h : c.AnswersAt start events ⟨sender, payload, .ok (answer, true)⟩ i) :
    ∃ row, c.row? (c.stateAt start events i).store (c.key sender payload) = some row ∧
      c.digest row = some payload := by
  rcases h.readBack with ⟨hflag, -⟩ | ⟨-, hread, -⟩
  · contradiction
  · obtain ⟨row, hrow, hdigest, -⟩ := readBack_ok hread
    exact ⟨row, hrow, hdigest⟩

/-- An answer where the key has a row refuses its payload or reads the row. -/
theorem AnswersAt.taken {row : ρ} (h : c.AnswersAt start events ⟨sender, payload, result⟩ i)
    (taken : c.row? (c.stateAt start events i).store (c.key sender payload) = some row) :
    (∃ e, c.VetoedAt start events sender payload e i ∧ result = .error e) ∨
    result = (c.readBack (c.stateAt start events i).store sender payload).map
      fun answer => (answer, true) := by
  rcases h.cases with ⟨draw, made, -, hfree, -⟩ | ⟨e, hfree, -⟩ | ⟨e, hvetoed, hresult, -⟩ |
    ⟨hresult, -⟩
  · rw [hfree] at taken
    contradiction
  · rw [hfree] at taken
    contradiction
  · exact Or.inl ⟨e, hvetoed, hresult⟩
  · exact Or.inr hresult

/-- A row created with a payload was created by an attempt with that payload. -/
theorem Lawful.digested (lawful : c.Lawful I) {state : State σ (ω × δ)} (inv : I state.store)
    (event : Event (ω × δ × ι) γ) {k : κ} {row : ρ}
    (hrow : c.row? (c.protocol.next state event).store k = some row)
    (hdigest : c.digest row = some payload) :
    (∃ old, c.row? state.store k = some old ∧ c.digest old = some payload) ∨
    ∃ sender answer, c.key sender payload = k ∧
      c.protocol.answer state event = some ⟨sender, payload, .ok (answer, false)⟩ := by
  cases event with
  | start client request =>
      cases hclient : state.pending client with
      | some entry =>
          rw [Protocol.next_busy hclient] at hrow
          exact Or.inl ⟨row, hrow, hdigest⟩
      | none =>
          have hstarted := c.started state.store request
          rcases hstart : c.protocol.start state.store request with ⟨reply | entry, store⟩ <;>
            rw [hstart] at hstarted
          · rw [Protocol.next_answered hclient hstart] at hrow
            have hanswer := Protocol.answer_eq_some.mpr
              (Or.inl ⟨client, request, store, rfl, hclient, hstart⟩)
            cases hstarted with
            | vetoed => exact Or.inl ⟨row, hrow, hdigest⟩
            | failed => exact Or.inl ⟨row, hrow, hdigest⟩
            | @created draw answer _ hvet hfree hcreate =>
                obtain ⟨-, -, made, hmade, hpayload, -, hframe⟩ := lawful.create inv hfree hcreate
                by_cases hk : k = c.key request.1 request.2.1
                · subst hk
                  obtain rfl := Option.some.inj (hmade.symm.trans hrow)
                  obtain rfl := Option.some.inj (hpayload.symm.trans hdigest)
                  exact Or.inr ⟨request.1, answer, rfl, hanswer⟩
                · exact Or.inl ⟨row, (hframe k hk).symm.trans hrow, hdigest⟩
          · rw [Protocol.next_waiting hclient hstart] at hrow
            cases hstarted
            exact Or.inl ⟨row, hrow, hdigest⟩
  | finish client =>
      cases hclient : state.pending client with
      | some entry =>
          rw [Protocol.next_finish hclient] at hrow
          exact Or.inl ⟨row, hrow, hdigest⟩
      | none =>
          rw [Protocol.next_free hclient] at hrow
          exact Or.inl ⟨row, hrow, hdigest⟩
  | other command =>
      left
      cases hold : c.row? state.store k with
      | none =>
          have hundigested := lawful.unasked command inv hold hrow
          rw [hundigested] at hdigest
          contradiction
      | some old =>
          obtain ⟨row', hrow', hfollows⟩ := (lawful.other command inv).2 k old hold
          obtain rfl := Option.some.inj (hrow'.symm.trans hrow)
          exact ⟨old, rfl, hfollows.digest.symm.trans hdigest⟩

/-- Where nothing was stored, a row created with a payload has its creation before it. -/
theorem Lawful.created (lawful : c.Lawful I) (initial : I start)
    (empty : ∀ k, c.row? start k = none) {k : κ} {row : ρ}
    (hrow : c.row? (c.stateAt start events j).store k = some row)
    (hdigest : c.digest row = some payload) :
    ∃ i < j, ∃ sender answer, c.key sender payload = k ∧
      c.AnswersAt start events ⟨sender, payload, .ok (answer, false)⟩ i := by
  let mark (state : State σ (ω × δ)) : Prop :=
    ∃ row, c.row? state.store k = some row ∧ c.digest row = some payload
  let fires (state : State σ (ω × δ)) (event : Event (ω × δ × ι) γ) : Prop :=
    ∃ sender answer, c.key sender payload = k ∧
      c.protocol.answer state event = some ⟨sender, payload, .ok (answer, false)⟩
  have unmarked : ¬ mark (.idle start) := by
    rintro ⟨row, hrow, -⟩
    have hnone := hrow.symm.trans (empty k)
    contradiction
  have marked : mark (run c.protocol.next (.idle start) (events.take j)) := ⟨row, hrow, hdigest⟩
  obtain ⟨i, hi⟩ : ∃ i, FiresAt c.protocol.next (.idle start) (events.take j) fires i :=
    exists_firesAt (Protocol.safe_idle initial)
      (fun state event safe => lawful.keeps.next_safe safe event) unmarked
      (fun state event safe ⟨row, hrow, hdigest⟩ =>
        lawful.digested safe.store event hrow hdigest) marked
  have hlt : i < j := Nat.lt_of_lt_of_le (firesAt_lt hi) (List.length_take_le j events)
  obtain ⟨event, hevent, sender, answer, hkey, hanswer⟩ := (firesAt_take hlt).mp hi
  exact ⟨i, hlt, sender, answer, hkey, event, hevent, hanswer⟩

theorem Lawful.oneRow (lawful : c.Lawful I) (initial : I start) {k : κ} {row row' : ρ}
    (hrow : c.row? (c.stateAt start events i).store k = some row)
    (hrow' : c.row? (c.stateAt start events j).store k = some row') :
    c.ident row = c.ident row' := by
  rcases Nat.le_total i j with hle | hle
  · obtain ⟨later, hlater, hfollows⟩ := lawful.rows_follow initial hle k row hrow
    rw [← Option.some.inj (hlater.symm.trans hrow'), hfollows.ident]
  · obtain ⟨later, hlater, hfollows⟩ := lawful.rows_follow initial hle k row' hrow'
    rw [← Option.some.inj (hlater.symm.trans hrow), hfollows.ident]

theorem Lawful.madeOnce (lawful : c.Lawful I) (initial : I start)
    (empty : ∀ k, c.row? start k = none) (events : List (Event (ω × δ × ι) γ)) :
    c.MadeOnce start events := by
  have taken : ∀ {sender payload answer flag sender' payload' i j}, i < j →
      c.key sender payload = c.key sender' payload' →
      c.AnswersAt start events ⟨sender, payload, .ok (answer, flag)⟩ i →
      c.row? (c.stateAt start events j).store (c.key sender' payload') ≠ none := by
    intro sender payload answer flag sender' payload' i j hlt hkey h
    obtain ⟨row, hrow, -⟩ := h.row lawful initial
    obtain ⟨row', hrow', -⟩ := lawful.rows_follow initial hlt _ row hrow
    rw [← hkey, hrow']
    exact Option.some_ne_none row'
  refine ⟨?_, ?_, fun k row row' i j => lawful.oneRow initial, ?_, ?_, ?_, ?_⟩
  · intro sender payload answer sender' payload' answer' i j hkey hi hj
    rcases Nat.lt_trichotomy i j with hlt | rfl | hlt
    · exact absurd hj.free.2 (taken hlt hkey hi)
    · rfl
    · exact absurd hi.free.2 (taken hlt hkey.symm hj)
  · intro sender payload answer j h
    obtain ⟨row, hrow, hdigest⟩ := h.replayed
    exact lawful.created initial empty hrow hdigest
  · intro sender payload answer flag row i j h hrow
    obtain ⟨shown, hshown, -, hcontent⟩ := h.row lawful initial
    rw [lawful.content hcontent]
    exact lawful.oneRow initial hshown hrow
  · intro sender payload answer flag i h
    obtain ⟨row, hrow, -, hcontent⟩ := h.row lawful initial
    exact ⟨row, hrow, hcontent⟩
  · intro sender payload answer i h
    rcases h.readBack with ⟨hflag, -⟩ | ⟨-, -, hstore⟩
    · contradiction
    · exact hstore
  · intro k row i j hrow hdeleted hle
    obtain ⟨row', hrow', hfollows⟩ := lawful.rows_follow initial hle k row hrow
    obtain rfl := hfollows.deleted hdeleted
    refine ⟨hrow', fun sender payload result h hkey => ?_⟩
    subst hkey
    rcases h.taken hrow' with ⟨e, -, hresult⟩ | hresult
    · exact ⟨e, hresult⟩
    · rcases readBack_of_deleted hrow' hdeleted with hread | hread
      · exact ⟨c.conflict, by rw [hresult, hread]; rfl⟩
      · exact ⟨c.gone, by rw [hresult, hread]; rfl⟩

/-- Where payloads are refused only under free keys, a taken key is compared. -/
theorem Lawful.once (lawful : c.Lawful I) (initial : I start)
    (empty : ∀ k, c.row? start k = none) (free : c.VetoesFree start events) :
    c.Once start events := by
  have read : ∀ {sender payload result row j},
      c.AnswersAt start events ⟨sender, payload, result⟩ j →
      c.row? (c.stateAt start events j).store (c.key sender payload) = some row →
      result = (c.readBack (c.stateAt start events j).store sender payload).map
        fun answer => (answer, true) := by
    intro sender payload result row j h hrow
    rcases h.taken hrow with ⟨e, hvetoed, -⟩ | hresult
    · rw [free _ _ _ _ hvetoed] at hrow
      contradiction
    · exact hresult
  have conflict : ∀ {sender payload result row i j},
      c.row? (c.stateAt start events i).store (c.key sender payload) = some row →
      c.digest row ≠ some payload → i ≤ j → c.AnswersAt start events ⟨sender, payload, result⟩ j →
      result = .error c.conflict := by
    intro sender payload result row i j hrow hne hle h
    obtain ⟨row', hrow', hfollows⟩ := lawful.rows_follow initial hle _ row hrow
    rw [read h hrow', readBack_of_digest hrow' (hfollows.digest ▸ hne)]
    rfl
  refine ⟨lawful.madeOnce initial empty events, ?_, ?_, ?_⟩
  · intro sender payload result row i j
    exact conflict
  · intro sender payload answer sender' payload' result i j hi hlt hj hkey hne
    obtain ⟨row, hrow, hdigest, -⟩ := hi.row lawful initial
    rw [hkey] at hrow
    refine conflict hrow (fun heq => hne ?_) hlt hj
    exact (Option.some.inj (hdigest.symm.trans heq)).symm
  · intro k row i j hrow hdeleted hle sender payload result h hkey
    obtain ⟨row', hrow', hfollows⟩ := lawful.rows_follow initial hle k row hrow
    obtain rfl := hfollows.deleted hdeleted
    subst hkey
    rw [read h hrow']
    exact (readBack_of_deleted hrow' hdeleted).imp (fun h => by rw [h]; rfl)
      (fun h => by rw [h]; rfl)

/-- And only there, if a refusal differs from the error of a comparison: the row
was created with a payload that passed. -/
theorem Lawful.once_iff (lawful : c.Lawful I) (initial : I start)
    (empty : ∀ k, c.row? start k = none)
    (differs : ∀ payload e, c.vet payload = .error e → e ≠ c.conflict) :
    c.Once start events ↔ c.VetoesFree start events := by
  refine ⟨fun once sender payload e i h => ?_, lawful.once initial empty⟩
  have refused : c.vet payload = .error e := by
    obtain ⟨-, -, client, draw, -, -, hvet⟩ := h
    exact hvet
  by_contra htaken
  obtain ⟨row, hrow⟩ := Option.ne_none_iff_exists'.mp htaken
  by_cases hdigest : c.digest row = some payload
  · obtain ⟨j, -, maker, answer, -, hmade⟩ := lawful.created initial empty hrow hdigest
    rw [hmade.free.1] at refused
    contradiction
  · have hconflict := once.conflict sender payload _ row i i hrow hdigest (Nat.le_refl i) h.answers
    rw [Except.error.injEq] at hconflict
    exact differs payload e refused hconflict

end

end Creation

end CreateOnce
