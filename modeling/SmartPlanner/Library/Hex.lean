import Mathlib.Data.List.Induction
import Mathlib.Algebra.Ring.Nat

/-!
Numbers as hexadecimal texts of a least width, and how they are read back.
-/

namespace Hex

/-- The digits in lower case, with zeros in front up to the width. -/
def text (width n : ℕ) : List Char := List.leftpad width '0' (Nat.toDigits 16 n)

/-- The value of a digit in either case. -/
def digit? (c : Char) : Option ℕ :=
  if '0' ≤ c ∧ c ≤ '9' then some (c.toNat - 48)
  else if 'a' ≤ c ∧ c ≤ 'f' then some (c.toNat - 87)
  else if 'A' ≤ c ∧ c ≤ 'F' then some (c.toNat - 55)
  else none

def next? (n : ℕ) (c : Char) : Option ℕ := (digit? c).map (16 * n + ·)

def value? (digits : List Char) : Option ℕ := digits.foldlM next? 0

theorem digit?_digitChar {n : ℕ} (h : n < 16) : digit? (Nat.digitChar n) = some n := by
  have table : ∀ n < 16, digit? (Nat.digitChar n) = some n := by decide
  exact table n h

theorem value?_concat (digits : List Char) (c : Char) :
    value? (digits ++ [c]) = (value? digits).bind fun n => next? n c := by
  unfold value?
  rw [List.foldlM_append]
  simp

theorem value?_toDigits (n : ℕ) : value? (Nat.toDigits 16 n) = some n := by
  induction n using Nat.strongRecOn with
  | ind n ih =>
      by_cases h : n < 16
      · rw [Nat.toDigits_of_lt_base h]
        simp [value?, next?, digit?_digitChar h]
      · rw [Nat.toDigits_of_base_le (by decide) (by omega), value?_concat, ih (n / 16) (by omega),
          Option.bind_some, next?, digit?_digitChar (by omega), Option.map_some]
        exact congrArg some (Nat.div_add_mod n 16)

/-- Zeros in front do not count. -/
theorem value?_zeros (count : ℕ) (digits : List Char) :
    value? (List.replicate count '0' ++ digits) = value? digits := by
  induction count with
  | zero => rfl
  | succ count ih => exact ih

theorem value?_text (width n : ℕ) : value? (text width n) = some n := by
  unfold text List.leftpad
  rw [value?_zeros, value?_toDigits]

theorem text_injective {width m n : ℕ} (h : text width m = text width n) : m = n := by
  have hm := value?_text width m
  rw [h, value?_text, Option.some.injEq] at hm
  exact hm.symm

theorem length_text {width n : ℕ} (pos : 0 < width) (h : n < 16 ^ width) :
    (text width n).length = width := by
  unfold text
  rw [List.length_leftpad]
  exact Nat.max_eq_left ((Nat.length_toDigits_le_iff (by decide) pos).mpr h)

/-- What has a value consists of digits. -/
theorem digit?_of_value? {digits : List Char} {n : ℕ} (h : value? digits = some n) :
    ∀ c ∈ digits, (digit? c).isSome = true := by
  induction digits using List.reverseRecOn generalizing n with
  | nil => exact fun c hc => absurd hc List.not_mem_nil
  | append_singleton digits last ih =>
      rw [value?_concat, Option.bind_eq_some_iff] at h
      obtain ⟨before, hbefore, hlast⟩ := h
      rw [List.forall_mem_append, List.forall_mem_singleton]
      refine ⟨ih hbefore, ?_⟩
      rw [next?, Option.map_eq_some_iff] at hlast
      obtain ⟨value, hvalue, -⟩ := hlast
      rw [hvalue]
      rfl

theorem digit?_of_mem_text {width n : ℕ} {c : Char} (h : c ∈ text width n) :
    (digit? c).isSome = true :=
  digit?_of_value? (value?_text width n) c h

end Hex
