import SmartPlanner.Library.Runs
import SmartPlanner.Library.Table
import Mathlib.Order.Lattice

/-!
Leases in a table. A lease is granted under a free key and revoked by its key,
and expired leases may be dropped at any time. As long as the clock does not go
back the dropping cannot be observed: a lease is alive exactly when it was
granted, has not been revoked since and has not ended.
-/

namespace Leases

open Runs Tables

variable {ρ κ τ : Type}

inductive Act (ρ κ τ : Type)
  | grant (row : ρ)
  | revoke (k : κ)
  | purge (p : ρ → Bool) (now : τ)

variable [DecidableEq κ] [LinearOrder τ] {key : ρ → κ}

/-- One act; a grant under a taken key changes nothing. -/
def perform (expires : ρ → τ) (table : Table key) : Act ρ κ τ → Table key
  | .grant row => (table.insert? row).getD table
  | .revoke k => table.delete fun row => key row = k
  | .purge p now => table.delete fun row => p row && expires row ≤ now

variable {expires : ρ → τ}

/-- The leases after some acts, from an empty table. -/
def after (key : ρ → κ) (expires : ρ → τ) (acts : List (Act ρ κ τ)) : Table key :=
  run (perform expires) Table.empty acts

/-- The lease was granted and has not been revoked since. -/
def Held (key : ρ → κ) (expires : ρ → τ) (acts : List (Act ρ κ τ)) (row : ρ) : Prop :=
  ∃ before later, acts = before ++ .grant row :: later ∧
    (∀ other ∈ after key expires before, key other ≠ key row) ∧ .revoke (key row) ∉ later

variable {acts : List (Act ρ κ τ)} {row : ρ} {act : Act ρ κ τ}

theorem after_snoc : after key expires (acts ++ [act]) =
    perform expires (after key expires acts) act := run_snoc acts act

theorem Held.snoc (held : Held key expires acts row) (h : act ≠ .revoke (key row)) :
    Held key expires (acts ++ [act]) row := by
  obtain ⟨before, later, rfl, free, kept⟩ := held
  refine ⟨before, later ++ [act], by simp, free, ?_⟩
  rw [List.mem_append, List.mem_singleton]
  rintro (hlater | rfl)
  · exact kept hlater
  · exact h rfl

theorem held_grant (free : ∀ other ∈ after key expires acts, key other ≠ key row) :
    Held key expires (acts ++ [.grant row]) row :=
  ⟨acts, [], rfl, free, List.not_mem_nil⟩

/-- The last act either granted the lease or left it held. -/
theorem held_snoc (h : Held key expires (acts ++ [act]) row) :
    (act = .grant row ∧ ∀ other ∈ after key expires acts, key other ≠ key row) ∨
      Held key expires acts row ∧ act ≠ .revoke (key row) := by
  obtain ⟨before, later, heq, free, kept⟩ := h
  rcases List.eq_nil_or_concat later with rfl | ⟨later, last, rfl⟩
  · obtain ⟨rfl, hlast⟩ := List.append_inj' heq rfl
    rw [List.cons.injEq] at hlast
    exact Or.inl ⟨hlast.1, free⟩
  · rw [List.concat_eq_append, ← List.cons_append, ← List.append_assoc] at heq
    obtain ⟨rfl, hlast⟩ := List.append_inj' heq rfl
    rw [List.cons.injEq] at hlast
    rw [List.concat_eq_append, List.mem_append, List.mem_singleton, not_or] at kept
    refine Or.inr ⟨⟨before, later, rfl, free, kept.1⟩, ?_⟩
    rw [hlast.1]
    exact Ne.symm kept.2

theorem held_of_mem (h : row ∈ after key expires acts) : Held key expires acts row := by
  induction acts using List.reverseRecOn with
  | nil => exact absurd h (Table.not_mem_empty row)
  | append_singleton acts act ih =>
      rw [after_snoc] at h
      cases act with
      | grant fresh =>
          rw [perform] at h
          cases hinsert : (after key expires acts).insert? fresh with
          | none =>
              rw [hinsert, Option.getD_none] at h
              exact (ih h).snoc nofun
          | some table =>
              rw [hinsert, Option.getD_some, Table.mem_insert? hinsert] at h
              rcases h with h | rfl
              · exact (ih h).snoc nofun
              · exact held_grant (Table.insert?_eq_some hinsert).1
      | revoke k =>
          rw [perform, Table.mem_delete, decide_eq_false_iff_not] at h
          refine (ih h.1).snoc ?_
          rintro ⟨⟩
          exact h.2 rfl
      | purge p now => exact (ih (Table.mem_delete.mp h).1).snoc nofun

/-- A held lease that ends after every purge is still in the table. -/
theorem mem_of_held (held : Held key expires acts row)
    (unexpired : ∀ p now, .purge p now ∈ acts → now < expires row) :
    row ∈ after key expires acts := by
  induction acts using List.reverseRecOn with
  | nil =>
      obtain ⟨before, later, heq, -⟩ := held
      simp at heq
  | append_singleton acts act ih =>
      have earlier : ∀ p now, .purge p now ∈ acts → now < expires row := fun p now h =>
        unexpired p now (List.mem_append_left _ h)
      rw [after_snoc]
      rcases held_snoc held with ⟨rfl, free⟩ | ⟨held, kept⟩
      · obtain ⟨table, hinsert⟩ := Table.insert?_isSome _ row free
        rw [perform, hinsert, Option.getD_some, Table.mem_insert? hinsert]
        exact Or.inr rfl
      · have h := ih held earlier
        cases act with
        | grant fresh =>
            rw [perform]
            cases hinsert : (after key expires acts).insert? fresh with
            | none => exact h
            | some table =>
                rw [Option.getD_some, Table.mem_insert? hinsert]
                exact Or.inl h
        | revoke k =>
            rw [perform, Table.mem_delete, decide_eq_false_iff_not]
            refine ⟨h, ?_⟩
            rintro rfl
            exact kept rfl
        | purge p now =>
            have hnow := unexpired p now List.mem_concat_self
            rw [perform, Table.mem_delete, Bool.and_eq_false_iff, decide_eq_false_iff_not]
            exact ⟨h, Or.inr (not_le.mpr hnow)⟩

/-- The leases that are alive at an instant no purge lies after. -/
theorem alive_iff {now : τ} (clock : ∀ p earlier, .purge p earlier ∈ acts → earlier ≤ now) :
    row ∈ after key expires acts ∧ now < expires row ↔
      Held key expires acts row ∧ now < expires row := by
  refine and_congr_left fun hnow => ⟨held_of_mem, fun held => mem_of_held held ?_⟩
  exact fun p earlier h => lt_of_le_of_lt (clock p earlier h) hnow

end Leases
