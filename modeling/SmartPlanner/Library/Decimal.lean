import Mathlib.Algebra.Ring.Nat
import Mathlib.Order.Basic

/-!
Numbers written with a fixed count of decimal digits, and records of them with a
mark after each field. Texts are lists of characters under the lexicographic
order, and the fixed widths make that order the one of the values.
-/

namespace Decimal

/-- The digits of a number below `10 ^ width`, the most significant first. -/
def pad : Nat → Nat → List Char
  | 0, _ => []
  | width + 1, n => Nat.digitChar (n / 10 ^ width) :: pad width (n % 10 ^ width)

theorem digitChar_lt {m n : Nat} (hmn : m < n) (hn : n < 10) :
    Nat.digitChar m < Nat.digitChar n := by
  have table : ∀ n < 10, ∀ m < n, Nat.digitChar m < Nat.digitChar n := by decide
  exact table n hn m hmn

/-- A character below the digits is below every digit. -/
theorem lt_digitChar {mark : Char} (hmark : mark < '0') {n : Nat} (hn : n < 10) :
    mark < Nat.digitChar n := by
  rcases Nat.eq_zero_or_pos n with rfl | pos
  · exact hmark
  · exact Char.lt_trans hmark (digitChar_lt pos hn)

/-- What holds of the digits and of the mark beyond them holds of every digit. -/
theorem forall_digitChar {P : Char → Prop} (table : ∀ n ≤ 16, P (Nat.digitChar n)) (n : Nat) :
    P (Nat.digitChar n) := by
  by_cases h : n ≤ 16
  · exact table n h
  · have beyond : Nat.digitChar n = Nat.digitChar 16 := by
      unfold Nat.digitChar
      repeat rw [if_neg (by omega)]
    rw [beyond]
    exact table 16 (Nat.le_refl 16)

theorem exists_digitChar_of_mem_pad {width n : Nat} {c : Char} (h : c ∈ pad width n) :
    ∃ k, c = Nat.digitChar k := by
  induction width generalizing n with
  | zero => exact absurd h List.not_mem_nil
  | succ width ih =>
    rcases List.mem_cons.mp h with rfl | h
    · exact ⟨_, rfl⟩
    · exact ih h

@[simp] theorem length_pad (width n : Nat) : (pad width n).length = width := by
  induction width generalizing n with
  | zero => rfl
  | succ width ih => rw [pad, List.length_cons, ih]

/-- The leading digit of a number that fits. -/
theorem leading_lt {width n : Nat} (h : n < 10 ^ (width + 1)) : n / 10 ^ width < 10 :=
  Nat.div_lt_of_lt_mul (by rwa [← Nat.pow_succ])

/-- Among numbers that fit, the smaller one has the smaller text, whatever
follows. -/
theorem pad_append_lt {width m n : Nat} (hmn : m < n) (hn : n < 10 ^ width) (xs ys : List Char) :
    pad width m ++ xs < pad width n ++ ys := by
  induction width generalizing m n with
  | zero =>
    rw [Nat.pow_zero] at hn
    omega
  | succ width ih =>
    simp only [pad, List.cons_append, List.cons_lt_cons_iff]
    rcases Nat.lt_or_eq_of_le (Nat.div_le_div_right (c := 10 ^ width) (Nat.le_of_lt hmn)) with
      leading | same
    · exact Or.inl (digitChar_lt leading (leading_lt hn))
    · have rest : m % 10 ^ width < n % 10 ^ width := by
        have hm := Nat.div_add_mod m (10 ^ width)
        have hn := Nat.div_add_mod n (10 ^ width)
        rw [same] at hm
        omega
      exact Or.inr ⟨by rw [same], ih rest (Nat.mod_lt _ (Nat.pow_pos (by decide)))⟩

/-- More digits extend the text of the leading ones. -/
theorem pad_add {width more n : Nat} (hn : n < 10 ^ (width + more)) :
    pad (width + more) n = pad width (n / 10 ^ more) ++ pad more (n % 10 ^ more) := by
  induction width generalizing n with
  | zero =>
    rw [Nat.zero_add] at hn ⊢
    rw [Nat.mod_eq_of_lt hn]
    rfl
  | succ width ih =>
    rw [Nat.succ_add, pad, ih (Nat.mod_lt _ (Nat.pow_pos (by decide))), pad, List.cons_append,
      Nat.div_div_eq_div_mul, ← Nat.pow_add, Nat.add_comm more width, Nat.pow_add,
      Nat.mul_comm (10 ^ width), Nat.mod_mul_right_div_self, Nat.mod_mul_right_mod]

/-- A mark below the digits comes before every further digit. -/
theorem cons_lt_pad_append {mark : Char} (hmark : mark < '0') {width n : Nat}
    (hn : n < 10 ^ (width + 1)) (xs ys : List Char) :
    mark :: xs < pad (width + 1) n ++ ys := by
  rw [pad, List.cons_append, List.cons_lt_cons_iff]
  exact Or.inl (lt_digitChar hmark (leading_lt hn))

theorem isDigit_of_mem_pad {width n : Nat} (hn : n < 10 ^ width) {c : Char}
    (hc : c ∈ pad width n) : c.isDigit := by
  induction width generalizing n with
  | zero => exact absurd hc List.not_mem_nil
  | succ width ih =>
    rcases List.mem_cons.mp hc with rfl | rest
    · rw [Nat.isDigit_digitChar]
      exact decide_eq_true (leading_lt hn)
    · exact ih (Nat.mod_lt _ (Nat.pow_pos (by decide))) rest

theorem ofDigitChars_pad {width n : Nat} (hn : n < 10 ^ width) :
    Nat.ofDigitChars 10 (pad width n) 0 = n := by
  induction width generalizing n with
  | zero => exact (Nat.lt_one_iff.mp hn).symm
  | succ width ih =>
    rw [pad, Nat.ofDigitChars_cons_digitChar_of_lt_ten (leading_lt hn),
      Nat.ofDigitChars_eq_ofDigitChars_zero, length_pad,
      ih (Nat.mod_lt _ (Nat.pow_pos (by decide))), Nat.mul_zero, Nat.zero_add]
    exact Nat.div_add_mod n (10 ^ width)

/-- A digit is the one that spells its value. -/
theorem exists_digitChar {c : Char} (h : c.isDigit) : ∃ n < 10, c = Nat.digitChar n := by
  obtain ⟨first, last⟩ := Char.isDigit_iff_toNat.mp h
  have least : '0'.toNat = 48 := rfl
  have greatest : '9'.toNat = 57 := rfl
  refine ⟨c.toNat - 48, by omega, Char.toNat_inj.mp ?_⟩
  rw [Nat.toNat_digitChar_of_lt_ten (by omega)]
  omega

theorem ofDigitChars_lt {digits : List Char} (h : ∀ c ∈ digits, c.isDigit) :
    Nat.ofDigitChars 10 digits 0 < 10 ^ digits.length := by
  induction digits with
  | nil => decide
  | cons c digits ih =>
    obtain ⟨n, hn, rfl⟩ := exists_digitChar (h c List.mem_cons_self)
    have rest := ih fun c hc => h c (List.mem_cons_of_mem _ hc)
    rw [Nat.ofDigitChars_cons_digitChar_of_lt_ten hn, Nat.ofDigitChars_eq_ofDigitChars_zero,
      List.length_cons, Nat.mul_zero, Nat.zero_add, Nat.pow_succ]
    have leading := Nat.mul_le_mul_left (10 ^ digits.length) (Nat.succ_le_of_lt hn)
    rw [Nat.mul_succ] at leading
    omega

/-- Digits are the text of the number they spell. -/
theorem pad_ofDigitChars {digits : List Char} (h : ∀ c ∈ digits, c.isDigit) :
    pad digits.length (Nat.ofDigitChars 10 digits 0) = digits := by
  induction digits with
  | nil => rfl
  | cons c digits ih =>
    have hrest : ∀ c ∈ digits, c.isDigit := fun c hc => h c (List.mem_cons_of_mem _ hc)
    obtain ⟨n, hn, rfl⟩ := exists_digitChar (h c List.mem_cons_self)
    rw [Nat.ofDigitChars_cons_digitChar_of_lt_ten hn, Nat.ofDigitChars_eq_ofDigitChars_zero,
      List.length_cons, pad, Nat.mul_zero, Nat.zero_add,
      Nat.mul_add_div (Nat.pow_pos (by decide)), Nat.mul_add_mod,
      Nat.div_eq_of_lt (ofDigitChars_lt hrest), Nat.mod_eq_of_lt (ofDigitChars_lt hrest),
      Nat.add_zero, ih hrest]

/-- The shortest text of a number that fills the width. -/
theorem toDigits_eq_pad {width n : Nat} (first : 10 ^ width ≤ n) (last : n < 10 ^ (width + 1)) :
    Nat.toDigits 10 n = pad (width + 1) n := by
  have length : (Nat.toDigits 10 n).length = width + 1 := by
    refine Nat.le_antisymm
      ((Nat.length_toDigits_le_iff (by decide) (Nat.succ_pos width)).mpr last) ?_
    by_contra short
    rcases Nat.eq_zero_or_pos width with rfl | pos
    · exact short Nat.length_toDigits_pos
    · have below : n < 10 ^ width :=
        (Nat.length_toDigits_le_iff (by decide) pos).mp (by omega)
      omega
  have digits : ∀ c ∈ Nat.toDigits 10 n, c.isDigit := fun c hc =>
    Nat.isDigit_of_mem_toDigits (by decide) (by decide) hc
  have spelled := pad_ofDigitChars digits
  rw [length, Nat.ofDigitChars_ten_toDigits] at spelled
  exact spelled.symm

/-- What comes before the first mark, and what follows it. -/
theorem append_mark_inj {mark : Char} {xs ys rest rest' : List Char} (hx : mark ∉ xs)
    (hy : mark ∉ ys) (h : xs ++ mark :: rest = ys ++ mark :: rest') : xs = ys ∧ rest = rest' := by
  induction xs generalizing ys with
  | nil =>
    cases ys with
    | nil => exact ⟨rfl, (List.cons.inj h).2⟩
    | cons y ys => exact absurd ((List.cons.inj h).1 ▸ List.mem_cons_self) hy
  | cons x xs ih =>
    cases ys with
    | nil => exact absurd ((List.cons.inj h).1 ▸ List.mem_cons_self) hx
    | cons y ys =>
      obtain ⟨rfl, tail⟩ := List.cons.inj h
      obtain ⟨rfl, same⟩ := ih (fun mem => hx (List.mem_cons_of_mem _ mem))
        (fun mem => hy (List.mem_cons_of_mem _ mem)) tail
      exact ⟨rfl, same⟩

/-- A record of numbers, each in its width and closed by its mark. -/
def text : List (Nat × Char) → List Nat → List Char
  | (width, mark) :: layout, n :: values => pad width n ++ mark :: text layout values
  | _, _ => []

/-- One value for each field, each within its width. -/
def Fits : List (Nat × Char) → List Nat → Prop
  | (width, _) :: layout, n :: values => n < 10 ^ width ∧ Fits layout values
  | [], [] => True
  | _, _ => False

theorem length_text {layout : List (Nat × Char)} {values : List Nat} (fits : Fits layout values) :
    (text layout values).length = (layout.map fun field => field.1 + 1).sum := by
  induction layout generalizing values with
  | nil => cases values <;> simp [text]
  | cons field layout ih =>
    cases values with
    | nil => exact fits.elim
    | cons n values =>
      simp only [text, List.length_append, List.length_cons, length_pad, ih fits.2, List.map_cons,
        List.sum_cons]
      omega

/-- Records of one layout are ordered as their values are, field by field. -/
theorem text_append_lt {layout : List (Nat × Char)} {a b : List Nat} (ha : Fits layout a)
    (hb : Fits layout b) (h : a < b) (xs ys : List Char) :
    text layout a ++ xs < text layout b ++ ys := by
  induction layout generalizing a b with
  | nil =>
    cases a with
    | nil =>
      cases b with
      | nil => exact absurd h (List.lt_irrefl _)
      | cons => exact hb.elim
    | cons => exact ha.elim
  | cons field layout ih =>
    cases a with
    | nil => exact ha.elim
    | cons m a =>
      cases b with
      | nil => exact hb.elim
      | cons n b =>
        rw [List.cons_lt_cons_iff] at h
        simp only [text, List.append_assoc, List.cons_append]
        rcases h with less | ⟨rfl, rest⟩
        · exact pad_append_lt less hb.1 _ _
        · apply List.append_left_lt
          rw [List.cons_lt_cons_iff]
          exact Or.inr ⟨rfl, ih ha.2 hb.2 rest⟩

/-- Reads a number of a given count of digits. -/
def readPad (width : Nat) (cs : List Char) : Option (Nat × List Char) :=
  if (cs.take width).length = width ∧ (cs.take width).all Char.isDigit then
    some (Nat.ofDigitChars 10 (cs.take width) 0, cs.drop width)
  else none

/-- Reads a record, each number followed by its mark. -/
def read : List (Nat × Char) → List Char → Option (List Nat × List Char)
  | [], cs => some ([], cs)
  | (width, mark) :: layout, cs =>
    match readPad width cs with
    | some (n, c :: rest) =>
      if c = mark then (read layout rest).map fun (values, rest) => (n :: values, rest) else none
    | _ => none

/-- The reader accepts the padded texts and no others. -/
theorem readPad_eq_some {width n : Nat} {cs rest : List Char} :
    readPad width cs = some (n, rest) ↔ n < 10 ^ width ∧ cs = pad width n ++ rest := by
  unfold readPad
  constructor
  · intro h
    split at h
    · rename_i fits
      obtain ⟨length, digits⟩ := fits
      rw [List.all_eq_true] at digits
      simp only [Option.some.injEq, Prod.mk.injEq] at h
      obtain ⟨rfl, rfl⟩ := h
      have below := ofDigitChars_lt digits
      have spelled := pad_ofDigitChars digits
      rw [length] at below spelled
      exact ⟨below, by rw [spelled, List.take_append_drop]⟩
    · cases h
  · rintro ⟨below, rfl⟩
    have taken : (pad width n ++ rest).take width = pad width n :=
      List.take_left' (length_pad width n)
    have dropped : (pad width n ++ rest).drop width = rest := List.drop_left' (length_pad width n)
    rw [taken, dropped, ofDigitChars_pad below, if_pos]
    exact ⟨length_pad width n, List.all_eq_true.mpr fun c hc => isDigit_of_mem_pad below hc⟩

theorem read_eq_some {layout : List (Nat × Char)} {values : List Nat} {cs rest : List Char} :
    read layout cs = some (values, rest) ↔
      Fits layout values ∧ cs = text layout values ++ rest := by
  induction layout generalizing values cs with
  | nil =>
    cases values with
    | nil => simp [read, Fits, text, eq_comm]
    | cons => simp [read, Fits]
  | cons field layout ih =>
    obtain ⟨width, mark⟩ := field
    constructor
    · intro h
      unfold read at h
      split at h
      · rename_i n c more found
        obtain ⟨below, rfl⟩ := readPad_eq_some.mp found
        split at h
        · rename_i same
          obtain ⟨⟨tail, left⟩, inner, eq⟩ := Option.map_eq_some_iff.mp h
          cases eq
          obtain ⟨fits, rfl⟩ := ih.mp inner
          exact ⟨⟨below, fits⟩, by simp [text, same]⟩
        · cases h
      · cases h
    · rintro ⟨fits, rfl⟩
      cases values with
      | nil => exact fits.elim
      | cons n values =>
        have found : readPad width (text ((width, mark) :: layout) (n :: values) ++ rest) =
            some (n, mark :: (text layout values ++ rest)) :=
          readPad_eq_some.mpr ⟨fits.1, by simp [text]⟩
        unfold read
        rw [found]
        simp only [if_true, ih.mpr ⟨fits.2, rfl⟩, Option.map_some]

/-- A padded text determines its number and what follows it. -/
theorem pad_append_inj {width m n : Nat} (hm : m < 10 ^ width) (hn : n < 10 ^ width)
    {xs ys : List Char} (h : pad width m ++ xs = pad width n ++ ys) : m = n ∧ xs = ys := by
  have left : readPad width (pad width m ++ xs) = some (m, xs) :=
    readPad_eq_some.mpr ⟨hm, rfl⟩
  rw [h, readPad_eq_some.mpr ⟨hn, rfl⟩] at left
  simpa [eq_comm] using left

/-- A record's text determines its values and what follows it. -/
theorem text_append_inj {layout : List (Nat × Char)} {a b : List Nat} (ha : Fits layout a)
    (hb : Fits layout b) {xs ys : List Char} (h : text layout a ++ xs = text layout b ++ ys) :
    a = b ∧ xs = ys := by
  have left : read layout (text layout a ++ xs) = some (a, xs) := read_eq_some.mpr ⟨ha, rfl⟩
  rw [h, read_eq_some.mpr ⟨hb, rfl⟩] at left
  simpa [eq_comm] using left

end Decimal
