import Mathlib.Data.Char
import Mathlib.Data.List.Basic

/-!
Strings of UTF-16 code units, in which surrogates need not come in pairs: how
they are cut into code points, and their encoding as UTF-8, where a surrogate
without its partner becomes U+FFFD.
-/

namespace Utf16

/-- The units of a character. -/
def units (c : Char) : List UInt16 :=
  if c.toNat < 0x10000 then [.ofNat c.toNat]
  else [.ofNat (0xD800 + (c.toNat - 0x10000) / 0x400),
    .ofNat (0xDC00 + (c.toNat - 0x10000) % 0x400)]

def ofChars (text : List Char) : List UInt16 := text.flatMap units

def ofString (text : String) : List UInt16 := ofChars text.toList

def IsLead (unit : UInt16) : Prop := 0xD800 ≤ unit ∧ unit < 0xDC00

def IsTrail (unit : UInt16) : Prop := 0xDC00 ≤ unit ∧ unit < 0xE000

instance (unit : UInt16) : Decidable (IsLead unit) := inferInstanceAs (Decidable (_ ∧ _))

instance (unit : UInt16) : Decidable (IsTrail unit) := inferInstanceAs (Decidable (_ ∧ _))

/-- Cut into code points: pairs of surrogates, and single units. -/
def codePoints : List UInt16 → List (List UInt16)
  | [] => []
  | [unit] => [[unit]]
  | first :: second :: rest =>
      if IsLead first ∧ IsTrail second then [first, second] :: codePoints rest
      else [first] :: codePoints (second :: rest)

/-- The character of a code point. -/
def scalar : List UInt16 → Char
  | [unit] => if IsLead unit ∨ IsTrail unit then '\uFFFD' else Char.ofNat unit.toNat
  | [lead, trail] =>
      Char.ofNat (0x10000 + (lead.toNat - 0xD800) * 0x400 + (trail.toNat - 0xDC00))
  | _ => '\uFFFD'

/-- The UTF-8 octets. -/
def encode (text : List UInt16) : List UInt8 :=
  ((codePoints text).map scalar).flatMap String.utf8EncodeChar

/-- No surrogate is without its partner. -/
def WellFormed (text : List UInt16) : Prop :=
  ∀ unit, [unit] ∈ codePoints text → ¬ IsLead unit ∧ ¬ IsTrail unit

theorem isLead_iff {unit : UInt16} : IsLead unit ↔ 0xD800 ≤ unit.toNat ∧ unit.toNat < 0xDC00 :=
  Iff.rfl

theorem isTrail_iff {unit : UInt16} : IsTrail unit ↔ 0xDC00 ≤ unit.toNat ∧ unit.toNat < 0xE000 :=
  Iff.rfl

theorem toNat_range (c : Char) : c.toNat < 0xD800 ∨ 0xDFFF < c.toNat ∧ c.toNat < 0x110000 :=
  c.valid

theorem units_of_lt {c : Char} (h : c.toNat < 0x10000) : units c = [.ofNat c.toNat] := if_pos h

/-- A character beyond the basic plane is a pair of surrogates. -/
theorem units_pair {c : Char} (h : ¬ c.toNat < 0x10000) : ∃ lead trail,
    units c = [lead, trail] ∧ IsLead lead ∧ IsTrail trail ∧
      0x10000 + (lead.toNat - 0xD800) * 0x400 + (trail.toNat - 0xDC00) = c.toNat := by
  have := toNat_range c
  refine ⟨_, _, if_neg h, ?_⟩
  rw [isLead_iff, isTrail_iff, UInt16.toNat_ofNat', UInt16.toNat_ofNat']
  omega

/-- A character of the basic plane is a unit other than a surrogate. -/
theorem units_single {c : Char} (h : c.toNat < 0x10000) : ∃ unit,
    units c = [unit] ∧ ¬ IsLead unit ∧ ¬ IsTrail unit ∧ unit.toNat = c.toNat := by
  have := toNat_range c
  refine ⟨_, if_pos h, ?_⟩
  rw [isLead_iff, isTrail_iff, UInt16.toNat_ofNat']
  omega

theorem length_units_le (c : Char) : (units c).length ≤ 2 := by
  unfold units
  split
  · exact Nat.le_succ 1
  · exact Nat.le_refl 2

theorem codePoints_units_append (c : Char) (text : List UInt16) :
    codePoints (units c ++ text) = units c :: codePoints text := by
  by_cases h : c.toNat < 0x10000
  · obtain ⟨unit, hunits, lead, -, -⟩ := units_single h
    rw [hunits]
    cases text with
    | nil => rfl
    | cons second rest =>
        rw [List.singleton_append, codePoints, if_neg fun pair => lead pair.1]
  · obtain ⟨lead, trail, hunits, hlead, htrail, -⟩ := units_pair h
    rw [hunits, List.cons_append, List.singleton_append, codePoints, if_pos ⟨hlead, htrail⟩]

@[simp] theorem ofChars_nil : ofChars [] = [] := rfl

@[simp] theorem ofChars_cons (c : Char) (text : List Char) :
    ofChars (c :: text) = units c ++ ofChars text := List.flatMap_cons

@[simp] theorem ofChars_append (text more : List Char) :
    ofChars (text ++ more) = ofChars text ++ ofChars more := List.flatMap_append

theorem codePoints_ofChars (text : List Char) : codePoints (ofChars text) = text.map units := by
  induction text with
  | nil => rfl
  | cons c text ih => rw [ofChars_cons, codePoints_units_append, ih, List.map_cons]

theorem wellFormed_ofChars (text : List Char) : WellFormed (ofChars text) := by
  intro unit hmem
  rw [codePoints_ofChars, List.mem_map] at hmem
  obtain ⟨c, -, hunits⟩ := hmem
  by_cases h : c.toNat < 0x10000
  · obtain ⟨unit', hunits', lead, trail, -⟩ := units_single h
    rw [hunits', List.singleton_inj] at hunits
    rw [← hunits]
    exact ⟨lead, trail⟩
  · obtain ⟨lead, trail, hpair, -⟩ := units_pair h
    rw [hpair] at hunits
    simp at hunits

theorem toNat_ofNat {n : Nat} (h : n.isValidChar) : (Char.ofNat n).toNat = n := by
  rw [Char.ofNat, dif_pos h]
  rfl

/-- A unit other than a surrogate is a character. -/
theorem exists_units_single {unit : UInt16} (lead : ¬ IsLead unit) (trail : ¬ IsTrail unit) :
    ∃ c, units c = [unit] := by
  have bound := unit.toNat_lt
  rw [isLead_iff] at lead
  rw [isTrail_iff] at trail
  have hnat := @toNat_ofNat unit.toNat (by unfold Nat.isValidChar; omega)
  refine ⟨Char.ofNat unit.toNat, ?_⟩
  rw [units_of_lt (by omega), hnat, UInt16.ofNat_toNat]

theorem exists_units_pair {lead trail : UInt16} (hlead : IsLead lead) (htrail : IsTrail trail) :
    ∃ c, units c = [lead, trail] := by
  rw [isLead_iff] at hlead
  rw [isTrail_iff] at htrail
  obtain ⟨n, hn⟩ : ∃ n, n = 0x10000 + (lead.toNat - 0xD800) * 0x400 + (trail.toNat - 0xDC00) :=
    ⟨_, rfl⟩
  have hnat := @toNat_ofNat n (by unfold Nat.isValidChar; omega)
  have first : 0xD800 + (n - 0x10000) / 0x400 = lead.toNat := by omega
  have second : 0xDC00 + (n - 0x10000) % 0x400 = trail.toNat := by omega
  refine ⟨Char.ofNat n, ?_⟩
  rw [units, hnat, if_neg (by omega), first, second, UInt16.ofNat_toNat, UInt16.ofNat_toNat]

theorem flatten_codePoints (text : List UInt16) : (codePoints text).flatten = text := by
  fun_induction codePoints text with
  | case1 => rfl
  | case2 unit => rfl
  | case3 lead trail rest pair ih => simp [ih]
  | case4 first second rest single ih => simp [ih]

theorem mem_codePoints {text point : List UInt16} (h : point ∈ codePoints text) :
    1 ≤ point.length ∧ point.length ≤ 2 := by
  fun_induction codePoints text with
  | case1 => exact absurd h List.not_mem_nil
  | case2 unit =>
      rw [List.mem_singleton.mp h]
      exact ⟨Nat.le_refl _, Nat.le_succ _⟩
  | case3 lead trail rest pair ih =>
      rcases List.mem_cons.mp h with rfl | h
      · exact ⟨Nat.le_succ _, Nat.le_refl _⟩
      · exact ih h
  | case4 first second rest single ih =>
      rcases List.mem_cons.mp h with rfl | h
      · exact ⟨Nat.le_refl _, Nat.le_succ _⟩
      · exact ih h

theorem length_codePoints_le (text : List UInt16) : (codePoints text).length ≤ text.length := by
  fun_induction codePoints text with
  | case1 => exact Nat.le_refl _
  | case2 unit => exact Nat.le_refl _
  | case3 lead trail rest pair ih =>
      simp only [List.length_cons]
      omega
  | case4 first second rest single ih =>
      simp only [List.length_cons] at ih ⊢
      omega

/-- A unit takes at most four octets. -/
theorem length_encode_le (text : List UInt16) : (encode text).length ≤ 4 * text.length := by
  have each : ∀ points : List (List UInt16),
      ((points.map scalar).flatMap String.utf8EncodeChar).length ≤ 4 * points.length := by
    intro points
    induction points with
    | nil => exact Nat.le_refl _
    | cons point points ih =>
        have width := (scalar point).utf8Size_le_four
        simp only [List.map_cons, List.flatMap_cons, List.length_append, List.length_cons,
          String.length_utf8EncodeChar] at ih ⊢
        omega
  exact Nat.le_trans (each _) (Nat.mul_le_mul_left 4 (length_codePoints_le text))

/-- The unit of a character of the basic plane stands for it only. -/
theorem mem_ofChars {c : Char} (h : c.toNat < 0xD800) {text : List Char} :
    .ofNat c.toNat ∈ ofChars text ↔ c ∈ text := by
  have own : ∀ other, UInt16.ofNat c.toNat ∈ units other ↔ c = other := by
    intro other
    have hnat : (UInt16.ofNat c.toNat).toNat = c.toNat := by
      rw [UInt16.toNat_ofNat']
      omega
    by_cases small : other.toNat < 0x10000
    · obtain ⟨unit, hunits, -, -, hunit⟩ := units_single small
      rw [hunits, List.mem_singleton, ← UInt16.toNat_inj, hnat, hunit, Char.toNat_inj]
    · obtain ⟨lead, trail, hunits, hlead, htrail, hpair⟩ := units_pair small
      rw [isLead_iff] at hlead
      rw [isTrail_iff] at htrail
      rw [hunits, List.mem_cons, List.mem_singleton, ← UInt16.toNat_inj, ← UInt16.toNat_inj, hnat,
        ← Char.toNat_inj]
      omega
  rw [ofChars, List.mem_flatMap]
  simp only [own]
  exact ⟨fun ⟨other, hother, h⟩ => h ▸ hother, fun h => ⟨c, h, rfl⟩⟩

/-- The strings without lone surrogates are those of characters. -/
theorem wellFormed_iff {text : List UInt16} :
    WellFormed text ↔ ∃ chars, ofChars chars = text := by
  constructor
  · intro h
    unfold WellFormed at h
    fun_induction codePoints text with
    | case1 => exact ⟨[], rfl⟩
    | case2 unit =>
        obtain ⟨lead, trail⟩ := h unit (List.mem_singleton_self _)
        obtain ⟨c, hc⟩ := exists_units_single lead trail
        exact ⟨[c], by rw [ofChars_cons, hc, ofChars_nil, List.append_nil]⟩
    | case3 lead trail rest pair ih =>
        obtain ⟨c, hc⟩ := exists_units_pair pair.1 pair.2
        obtain ⟨chars, rfl⟩ := ih fun unit hunit => h unit (List.mem_cons_of_mem _ hunit)
        exact ⟨c :: chars, by rw [ofChars_cons, hc]; rfl⟩
    | case4 unit second rest single ih =>
        obtain ⟨lead, trail⟩ := h unit List.mem_cons_self
        obtain ⟨c, hc⟩ := exists_units_single lead trail
        obtain ⟨chars, hchars⟩ := ih fun unit hunit => h unit (List.mem_cons_of_mem _ hunit)
        exact ⟨c :: chars, by rw [ofChars_cons, hc, hchars]; rfl⟩
  · rintro ⟨chars, rfl⟩
    exact wellFormed_ofChars chars

theorem scalar_units (c : Char) : scalar (units c) = c := by
  by_cases h : c.toNat < 0x10000
  · obtain ⟨unit, hunits, lead, trail, hnat⟩ := units_single h
    rw [hunits, scalar, if_neg (not_or.mpr ⟨lead, trail⟩), hnat, Char.ofNat_toNat]
  · obtain ⟨lead, trail, hunits, -, -, hnat⟩ := units_pair h
    rw [hunits, scalar, hnat, Char.ofNat_toNat]

/-- The character of a code point, if it is no lone surrogate. -/
def char? : List UInt16 → Option Char
  | [unit] => if IsLead unit ∨ IsTrail unit then none else some (scalar [unit])
  | point => some (scalar point)

/-- The characters of a string without lone surrogates. -/
def toChars (text : List UInt16) : Option (List Char) := (codePoints text).mapM char?

theorem char?_units (c : Char) : char? (units c) = some c := by
  have hscalar := scalar_units c
  by_cases h : c.toNat < 0x10000
  · obtain ⟨unit, hunits, lead, trail, -⟩ := units_single h
    rw [hunits] at hscalar ⊢
    rw [char?, if_neg (not_or.mpr ⟨lead, trail⟩), hscalar]
  · obtain ⟨lead, trail, hunits, -⟩ := units_pair h
    rw [hunits] at hscalar ⊢
    rw [← hscalar]
    rfl

theorem toChars_ofChars (text : List Char) : toChars (ofChars text) = some text := by
  unfold toChars
  rw [codePoints_ofChars, List.mapM_map]
  induction text with
  | nil => rfl
  | cons c text ih => simp [List.mapM_cons, Function.comp_apply, char?_units, ih]

end Utf16
