import SmartPlanner.Library.Sessions
import Mathlib.Data.Finset.Card
import Mathlib.Order.Basic

/-!
A bounded number of slots that several clients take and give back. The free
slots and the clients that hold one always add up to the limit, in any
interleaving of their requests.
-/

namespace Slots

variable {ι : Type} {limit free : ℕ} {holding : ι → Prop}

/-- `free` of the slots are free and each client that is `holding` has one. -/
def Shared (limit free : ℕ) (holding : ι → Prop) : Prop :=
  ∃ holders : Finset ι, (∀ i, i ∈ holders ↔ holding i) ∧ free + holders.card = limit

theorem shared_start (none : ∀ i, ¬ holding i) : Shared limit limit holding :=
  ⟨∅, fun i => iff_of_false (Finset.notMem_empty i) (none i), rfl⟩

theorem Shared.congr {holding' : ι → Prop} (shared : Shared limit free holding)
    (h : ∀ i, holding' i ↔ holding i) : Shared limit free holding' := by
  obtain ⟨holders, hmem, hcount⟩ := shared
  exact ⟨holders, fun i => (hmem i).trans (h i).symm, hcount⟩

theorem Shared.acquire {holding' : ι → Prop} {i : ι} (shared : Shared limit (free + 1) holding)
    (idle : ¬ holding i) (h : ∀ j, holding' j ↔ j = i ∨ holding j) :
    Shared limit free holding' := by
  classical
  obtain ⟨holders, hmem, hcount⟩ := shared
  refine ⟨insert i holders, fun j => ?_, ?_⟩
  · rw [Finset.mem_insert, hmem, h]
  · rw [Finset.card_insert_of_notMem ((hmem i).not.mpr idle)]
    omega

theorem Shared.release {holding' : ι → Prop} {i : ι} (shared : Shared limit free holding)
    (held : holding i) (h : ∀ j, holding' j ↔ j ≠ i ∧ holding j) :
    Shared limit (free + 1) holding' := by
  classical
  obtain ⟨holders, hmem, hcount⟩ := shared
  refine ⟨holders.erase i, fun j => ?_, ?_⟩
  · rw [Finset.mem_erase, hmem, h]
  · have hcard := Finset.card_erase_add_one ((hmem i).mpr held)
    omega

/-- At most `limit` clients hold a slot at a time. -/
theorem Shared.card_le (shared : Shared limit free holding) {clients : Finset ι}
    (h : ∀ i ∈ clients, holding i) : clients.card ≤ limit := by
  obtain ⟨holders, hmem, hcount⟩ := shared
  have hle := Finset.card_le_card fun i hi => (hmem i).mpr (h i hi)
  omega

/-- No slot is free exactly when `limit` clients hold one. -/
theorem Shared.none_free_iff (shared : Shared limit free holding) :
    free = 0 ↔ ∃ clients : Finset ι, (∀ i ∈ clients, holding i) ∧ clients.card = limit := by
  constructor
  · rintro rfl
    obtain ⟨holders, hmem, hcount⟩ := shared
    exact ⟨holders, fun i => (hmem i).mp, by omega⟩
  · rintro ⟨clients, hclients, hcard⟩
    obtain ⟨holders, hmem, hcount⟩ := shared
    have hle := Finset.card_le_card fun i hi => (hmem i).mpr (hclients i hi)
    omega

/-- When no client holds a slot, all of them are free. -/
theorem Shared.all_free (shared : Shared limit free holding) (none : ∀ i, ¬ holding i) :
    free = limit := by
  obtain ⟨holders, hmem, hcount⟩ := shared
  have empty : holders = ∅ := Finset.eq_empty_of_forall_notMem fun i hi => none i ((hmem i).mp hi)
  rw [empty, Finset.card_empty] at hcount
  omega

/-- Two slots: who holds them, and when they are all free or all taken. -/
theorem Shared.two (shared : Shared 2 free holding) :
    (∀ clients : Finset ι, (∀ i ∈ clients, holding i) → clients.card ≤ 2) ∧
      ((∀ i, ¬ holding i) → free = 2) ∧ (free = 0 ↔ ∃ i j, i ≠ j ∧ holding i ∧ holding j) := by
  classical
  refine ⟨fun clients => shared.card_le, shared.all_free, shared.none_free_iff.trans ⟨?_, ?_⟩⟩
  · rintro ⟨clients, hclients, hcard⟩
    obtain ⟨i, j, hne, rfl⟩ := Finset.card_eq_two.mp hcard
    exact ⟨i, j, hne, hclients i (by simp), hclients j (by simp)⟩
  · rintro ⟨i, j, hne, hi, hj⟩
    exact ⟨{i, j}, by simp [hi, hj], Finset.card_pair hne⟩

section
open Sessions

variable {σ ω π α γ : Type} {p : Protocol σ ω π α γ} {count : σ → ℕ} {uses : π → Bool}

/-- The slot that the first step of a request takes. -/
def taken (uses : π → Bool) : α ⊕ π → ℕ
  | .inl _ => 0
  | .inr entry => (uses entry).toNat

/-- The requests that `uses` selects take a slot with their first step and give it
back with their second. -/
structure Counted (p : Protocol σ ω π α γ) (count : σ → ℕ) (uses : π → Bool) : Prop where
  start : ∀ s request, count (p.start s request).2 + taken uses (p.start s request).1 = count s
  finish : ∀ s entry, count (p.finish s entry).2 = count s + (uses entry).toNat
  other : ∀ s command, count (p.other s command) = count s

/-- The client waits for a request that holds a slot. -/
def Holding (uses : π → Bool) (state : State σ π) (client : ℕ) : Prop :=
  ∃ entry, state.pending client = some entry ∧ uses entry = true

theorem holding_of_free {state : State σ π} {client : ℕ} (free : state.pending client = none) :
    ¬ Holding uses state client := by
  rintro ⟨entry, hentry, -⟩
  rw [free] at hentry
  contradiction

theorem holding_update {state : State σ π} {client : ℕ} {store : σ} {left : Option π} (j : ℕ) :
    Holding uses ⟨store, Function.update state.pending client left⟩ j ↔
      (j = client ∧ ∃ entry ∈ left, uses entry = true) ∨ j ≠ client ∧ Holding uses state j := by
  unfold Holding
  by_cases hj : j = client
  · subst hj
    simp
  · simp [hj]

/-- One event. -/
theorem Counted.next (counted : Counted p count uses) {state : State σ π}
    (shared : Shared limit (count state.store) (Holding uses state)) (event : Event ω γ) :
    Shared limit (count (p.next state event).store) (Holding uses (p.next state event)) := by
  cases event with
  | other command =>
      change Shared limit (count (p.other state.store command)) (Holding uses state)
      rwa [counted.other]
  | start client request =>
      cases hclient : state.pending client with
      | some entry => rwa [Protocol.next_busy hclient]
      | none =>
          have hcount := counted.start state.store request
          rcases h : p.start state.store request with ⟨reply | entry, store⟩
          · rw [h, taken, Nat.add_zero] at hcount
            rw [Protocol.next_answered hclient h]
            change Shared limit (count store) (Holding uses state)
            rwa [hcount]
          · rw [h, taken] at hcount
            rw [Protocol.next_waiting hclient h]
            have earlier := @holding_of_free _ _ uses _ _ hclient
            cases huses : uses entry with
            | true =>
                rw [huses, Bool.toNat_true] at hcount
                rw [← hcount] at shared
                refine shared.acquire earlier fun j => ?_
                rw [holding_update]
                by_cases hj : j = client <;> simp [hj, huses]
            | false =>
                rw [huses, Bool.toNat_false, Nat.add_zero] at hcount
                rw [← hcount] at shared
                refine shared.congr fun j => ?_
                rw [holding_update]
                by_cases hj : j = client <;> simp [hj, huses, earlier]
  | finish client =>
      cases hclient : state.pending client with
      | none => rwa [Protocol.next_free hclient]
      | some entry =>
          rw [Protocol.next_finish hclient]
          dsimp only
          rw [counted.finish]
          cases huses : uses entry with
          | true =>
              refine shared.release ⟨entry, hclient, huses⟩ fun j => ?_
              rw [holding_update]
              simp
          | false =>
              refine shared.congr fun j => ?_
              rw [holding_update]
              by_cases hj : j = client
              · subst hj
                simp [Holding, hclient, huses]
              · simp [hj]

/-- The slots over a run, from no request under way. -/
theorem Counted.reached (counted : Counted p count uses) (store : σ) (events : List (Event ω γ)) :
    Shared (count store) (count (p.reached store events).store)
      (Holding uses (p.reached store events)) := by
  refine Runs.run_invariant (I := fun state : State σ π =>
    Shared (count store) (count state.store) (Holding uses state)) ?_
    (fun state event shared => counted.next shared event) events
  exact shared_start fun _ => holding_of_free rfl

end

end Slots
