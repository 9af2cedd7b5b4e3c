import SmartPlanner.Library.Runs
import Mathlib.Logic.Function.Basic

/-!
Requests served in two atomic steps over a shared store. The first step of a
request answers at once or leaves an entry pending for its client; the second
answers from the entry. In between, the steps of any other clients and any
other commands may change the store.
-/

namespace Sessions

open Runs

universe u
variable {σ ω π α γ : Type u}

structure Protocol (σ ω π α γ : Type u) where
  start : σ → ω → (α ⊕ π) × σ
  finish : σ → π → α × σ
  other : σ → γ → σ

inductive Event (ω γ : Type u)
  | start (client : ℕ) (request : ω)
  | finish (client : ℕ)
  | other (command : γ)

structure State (σ π : Type u) where
  store : σ
  pending : ℕ → Option π

/-- No request is under way. -/
def State.idle (store : σ) : State σ π := ⟨store, fun _ => none⟩

namespace Protocol
variable (p : Protocol σ ω π α γ)

/-- A client that waits for an answer starts nothing new. -/
def next (state : State σ π) : Event ω γ → State σ π
  | .start client request =>
      match state.pending client with
      | some _ => state
      | none =>
          match p.start state.store request with
          | (.inl _, store) => { state with store }
          | (.inr entry, store) => ⟨store, Function.update state.pending client (some entry)⟩
  | .finish client =>
      match state.pending client with
      | some entry =>
          ⟨(p.finish state.store entry).2, Function.update state.pending client none⟩
      | none => state
  | .other command => { state with store := p.other state.store command }

/-- The answer a client receives at an event. -/
def answer (state : State σ π) : Event ω γ → Option α
  | .start client request =>
      match state.pending client with
      | some _ => none
      | none => (p.start state.store request).1.getLeft?
  | .finish client => (state.pending client).map fun entry => (p.finish state.store entry).1
  | .other _ => none

def reached (store : σ) (events : List (Event ω γ)) : State σ π :=
  run p.next (.idle store) events

/-- `R` bounds what any step does to the store; `I` is an invariant of the store
and `J` one of a pending entry, and both survive `R`. -/
structure Keeps (I : σ → Prop) (J : σ → π → Prop) (R : σ → σ → Prop) : Prop where
  refl : ∀ s, I s → R s s
  start : ∀ s request, I s → R s (p.start s request).2
  started : ∀ s request entry, I s → (p.start s request).1 = .inr entry →
    J (p.start s request).2 entry
  finish : ∀ s entry, I s → J s entry → R s (p.finish s entry).2
  other : ∀ s command, I s → R s (p.other s command)
  store : ∀ s s', I s → R s s' → I s'
  entry : ∀ s s' entry, I s → J s entry → R s s' → J s' entry

/-- A state in which the invariants hold. -/
structure Safe (I : σ → Prop) (J : σ → π → Prop) (state : State σ π) : Prop where
  store : I state.store
  pending : ∀ client entry, state.pending client = some entry → J state.store entry

section
variable {p} {state : State σ π} {client : ℕ} {request : ω} {entry : π} {reply : α} {store : σ}

theorem next_busy (busy : state.pending client = some entry) :
    p.next state (.start client request) = state := by
  simp only [next, busy]

theorem next_answered (free : state.pending client = none)
    (h : p.start state.store request = (.inl reply, store)) :
    p.next state (.start client request) = { state with store } := by
  simp only [next, free, h]

theorem next_waiting (free : state.pending client = none)
    (h : p.start state.store request = (.inr entry, store)) :
    p.next state (.start client request) =
      ⟨store, Function.update state.pending client (some entry)⟩ := by
  simp only [next, free, h]

theorem next_finish (busy : state.pending client = some entry) :
    p.next state (.finish client : Event ω γ) =
      ⟨(p.finish state.store entry).2, Function.update state.pending client none⟩ := by
  simp only [next, busy]

theorem next_free (free : state.pending client = none) :
    p.next state (.finish client : Event ω γ) = state := by
  simp only [next, free]

/-- An answer comes from the first step of a request or from its second. -/
theorem answer_eq_some {event : Event ω γ} :
    p.answer state event = some reply ↔
      (∃ client request store, event = .start client request ∧ state.pending client = none ∧
        p.start state.store request = (.inl reply, store)) ∨
      (∃ client entry, event = .finish client ∧ state.pending client = some entry ∧
        (p.finish state.store entry).1 = reply) := by
  constructor
  · intro h
    cases event with
    | start client request =>
        cases hclient : state.pending client with
        | some entry =>
            simp only [answer, hclient] at h
            contradiction
        | none =>
            simp only [answer, hclient] at h
            cases hstart : p.start state.store request with
            | mk first store =>
                rw [hstart, Sum.getLeft?_eq_some_iff] at h
                obtain rfl : first = .inl reply := h
                exact Or.inl ⟨client, request, store, rfl, hclient, hstart⟩
    | finish client =>
        simp only [answer, Option.map_eq_some_iff] at h
        obtain ⟨entry, hclient, h⟩ := h
        exact Or.inr ⟨client, entry, rfl, hclient, h⟩
    | other command => contradiction
  · rintro (⟨client, request, store, rfl, hclient, h⟩ | ⟨client, entry, rfl, hclient, h⟩)
    · simp only [answer, hclient, h, Sum.getLeft?_inl]
    · simp only [answer, hclient, Option.map_some, h]

end

variable {p} {I : σ → Prop} {J : σ → π → Prop} {R : σ → σ → Prop}

theorem Keeps.next_store (keeps : p.Keeps I J R) {state : State σ π} (safe : Safe I J state)
    (event : Event ω γ) : R state.store (p.next state event).store := by
  cases event with
  | start client request =>
      cases hclient : state.pending client with
      | some entry =>
          rw [next_busy hclient]
          exact keeps.refl state.store safe.store
      | none =>
          have hstart := keeps.start state.store request safe.store
          rcases h : p.start state.store request with ⟨reply | entry, store⟩ <;> rw [h] at hstart
          · rwa [next_answered hclient h]
          · rwa [next_waiting hclient h]
  | finish client =>
      cases hclient : state.pending client with
      | some entry =>
          rw [next_finish hclient]
          exact keeps.finish state.store entry safe.store (safe.pending client entry hclient)
      | none =>
          rw [next_free hclient]
          exact keeps.refl state.store safe.store
  | other command => exact keeps.other state.store command safe.store

theorem Keeps.next_safe (keeps : p.Keeps I J R) {state : State σ π} (safe : Safe I J state)
    (event : Event ω γ) : Safe I J (p.next state event) := by
  have hstore := keeps.next_store safe event
  have kept : ∀ client entry, state.pending client = some entry →
      J (p.next state event).store entry := fun client entry hpending =>
    keeps.entry _ _ entry safe.store (safe.pending client entry hpending) hstore
  refine ⟨keeps.store _ _ safe.store hstore, fun client entry hpending => ?_⟩
  cases event with
  | start other request =>
      cases hother : state.pending other with
      | some waiting =>
          rw [next_busy hother] at hpending ⊢
          exact safe.pending client entry hpending
      | none =>
          have hstarted := keeps.started state.store request
          rcases h : p.start state.store request with ⟨reply | fresh, store⟩ <;> rw [h] at hstarted
          · rw [next_answered hother h] at hpending kept ⊢
            exact kept client entry hpending
          · rw [next_waiting hother h] at hpending kept ⊢
            change Function.update state.pending other (some fresh) client = some entry at hpending
            by_cases hclient : client = other
            · subst hclient
              rw [Function.update_self, Option.some.injEq] at hpending
              exact hpending ▸ hstarted fresh safe.store rfl
            · rw [Function.update_of_ne hclient] at hpending
              exact kept client entry hpending
  | finish other =>
      cases hother : state.pending other with
      | none =>
          rw [next_free hother] at hpending ⊢
          exact safe.pending client entry hpending
      | some done =>
          rw [next_finish hother] at hpending kept ⊢
          change Function.update state.pending other none client = some entry at hpending
          by_cases hclient : client = other
          · subst hclient
            rw [Function.update_self] at hpending
            contradiction
          · rw [Function.update_of_ne hclient] at hpending
            exact kept client entry hpending
  | other command => exact kept client entry hpending

theorem safe_idle {store : σ} (initial : I store) : Safe I J (.idle store : State σ π) :=
  ⟨initial, fun _ _ h => nomatch h⟩

theorem Keeps.reached_safe (keeps : p.Keeps I J R) {store : σ} (initial : I store)
    (events : List (Event ω γ)) : Safe I J (p.reached store events) :=
  run_invariant (safe_idle initial) (fun _ event safe => keeps.next_safe safe event) events

theorem reached_snoc {store : σ} {events : List (Event ω γ)} {event : Event ω γ} :
    p.reached store (events ++ [event]) = p.next (p.reached store events) event :=
  run_snoc events event

/-- Other clients' entries are left alone. -/
theorem next_pending_of_ne {state : State σ π} {client : ℕ} {event : Event ω γ}
    (start : ∀ request, event ≠ .start client request) (finish : event ≠ .finish client) :
    (p.next state event).pending client = state.pending client := by
  cases event with
  | start other request =>
      have hne : client ≠ other := fun h => start request (h ▸ rfl)
      cases hother : state.pending other with
      | some entry => rw [next_busy hother]
      | none =>
          rcases h : p.start state.store request with ⟨reply | entry, store⟩
          · rw [next_answered hother h]
          · rw [next_waiting hother h]
            change Function.update state.pending other (some entry) client = _
            rw [Function.update_of_ne hne]
  | finish other =>
      have hne : client ≠ other := fun h => finish (h ▸ rfl)
      cases hother : state.pending other with
      | none => rw [next_free hother]
      | some entry =>
          rw [next_finish hother]
          change Function.update state.pending other none client = _
          rw [Function.update_of_ne hne]
  | other command => rfl

/-- A pending entry was left by the request that its client started last. -/
theorem pending_started {store : σ} {events : List (Event ω γ)} {client : ℕ} {entry : π}
    (h : (p.reached store events).pending client = some entry) :
    ∃ before request later, events = before ++ .start client request :: later ∧
      (p.reached store before).pending client = none ∧
      (p.start (p.reached store before).store request).1 = .inr entry := by
  induction events using List.reverseRecOn with
  | nil => contradiction
  | append_singleton events event ih =>
      rw [reached_snoc] at h
      have earlier (h : (p.reached store events).pending client = some entry) :
          ∃ before request later, events ++ [event] = before ++ .start client request :: later ∧
            (p.reached store before).pending client = none ∧
            (p.start (p.reached store before).store request).1 = .inr entry := by
        obtain ⟨before, request, later, rfl, hfree, hstart⟩ := ih h
        exact ⟨before, request, later ++ [event], by simp, hfree, hstart⟩
      by_cases hstart : ∃ request, event = .start client request
      · obtain ⟨request, rfl⟩ := hstart
        cases hclient : (p.reached store events).pending client with
        | some waiting =>
            rw [next_busy hclient] at h
            exact earlier h
        | none =>
            rcases hanswer : p.start (p.reached store events).store request with
              ⟨reply | fresh, after⟩
            · rw [next_answered hclient hanswer, hclient] at h
              contradiction
            · rw [next_waiting hclient hanswer] at h
              change Function.update (p.reached store events).pending client (some fresh) client =
                some entry at h
              rw [Function.update_self, Option.some.injEq] at h
              exact ⟨events, request, [], rfl, hclient, by rw [hanswer, h]⟩
      · by_cases hfinish : event = .finish client
        · subst hfinish
          cases hclient : (p.reached store events).pending client with
          | none =>
              rw [next_free hclient] at h
              exact earlier h
          | some done =>
              rw [next_finish hclient] at h
              change Function.update (p.reached store events).pending client none client =
                some entry at h
              rw [Function.update_self] at h
              contradiction
        · rw [next_pending_of_ne (fun request h => hstart ⟨request, h⟩) hfinish] at h
          exact earlier h

end Protocol

end Sessions
