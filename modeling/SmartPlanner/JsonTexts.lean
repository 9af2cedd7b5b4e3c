import SmartPlanner.Library.Hex
import SmartPlanner.Timestamps

/-!
The texts that stand for ids, days and instants in JSON, and how they are read
back. Other spellings that the contracts accept are not written by the program.
-/

namespace SmartPlanner

open Decimal

/-- The groups of `str(uuid)`. -/
def uuidGroups (digits : List Char) : List (List Char) :=
  [digits.take 8, (digits.drop 8).take 4, (digits.drop 12).take 4, (digits.drop 16).take 4,
    digits.drop 20]

def uuidText (id : UUID) : List Char := ['-'].intercalate (uuidGroups (Hex.text 32 id))

/-- `UUID(text)` of a text with hyphens. -/
def readUuid (text : List Char) : Option UUID :=
  let groups := text.splitOn '-'
  if groups.map List.length = [8, 4, 4, 4, 12] then Hex.value? groups.flatten else none

/-- `date.isoformat()` -/
def isoDate (day : Int) : List Char :=
  let date := Civil.ofOrdinal day
  text [(4, '-'), (2, '-')] [date.year.toNat, date.month.toNat] ++ pad 2 date.day.toNat

def readDate (cs : List Char) : Option Int :=
  match read [(4, '-'), (2, '-')] cs with
  | some ([year, month], rest) =>
      match readPad 2 rest with
      | some (day, []) =>
          let date : Civil.Date := ⟨year, month, day⟩
          if 1 ≤ year ∧ date.Valid then some (Civil.ordinal date) else none
      | _ => none
  | _ => none

def secondLayout : List (Nat × Char) :=
  [(4, '-'), (2, '-'), (2, 'T'), (2, ':'), (2, ':'), (2, 'Z')]

/-- A UTC datetime as pydantic writes it, with microseconds where there are any. -/
def isoZ (t : Int) : List Char :=
  if t % 1000000 = 0 then text secondLayout (clockFields t)
  else text clockLayout (clockFields t) ++ (pad 6 (t % 1000000).toNat ++ ['Z'])

/-- The instant of the fields of a clock, if they exist. -/
def instantOf : List Nat → Nat → Option Int
  | [year, month, day, hours, minutes, seconds], micros =>
      let date : Civil.Date := ⟨year, month, day⟩
      if (1 ≤ year ∧ date.Valid) ∧ hours < 24 ∧ minutes < 60 ∧ seconds < 60 then
        some ((Civil.ordinal date - 719163) * 86400000000 + hours * 3600000000 + minutes * 60000000 +
          seconds * 1000000 + micros)
      else none
  | _, _ => none

def readZ (cs : List Char) : Option Int :=
  match read secondLayout cs with
  | some (fields, []) => instantOf fields 0
  | _ =>
      match read clockLayout cs with
      | some (fields, rest) =>
          match readPad 6 rest with
          | some (micros, ['Z']) => instantOf fields micros
          | _ => none
      | none => none

theorem flatten_uuidGroups (digits : List Char) : (uuidGroups digits).flatten = digits := by
  have join (n m : Nat) : (digits.drop n).take m ++ digits.drop (n + m) = digits.drop n := by
    rw [← List.drop_drop, List.take_append_drop]
  have last := join 16 4
  have third := join 12 4
  have second := join 8 4
  simp only [uuidGroups, List.flatten_cons, List.flatten_nil, List.append_nil]
  rw [last, third, second, List.take_append_drop]

/-- The hyphens part the groups. -/
theorem splitOn_uuidText (id : UUID) : (uuidText id).splitOn '-' = uuidGroups (Hex.text 32 id) := by
  refine List.splitOn_intercalate '-' (fun group hgroup hdash => ?_) (by simp [uuidGroups])
  have hmem : '-' ∈ Hex.text 32 id := by
    rw [← flatten_uuidGroups (Hex.text 32 id)]
    exact List.mem_flatten.mpr ⟨group, hgroup, hdash⟩
  exact absurd (Hex.digit?_of_mem_text hmem) (by decide)

theorem uuidText_injective {a b : UUID} (h : uuidText a = uuidText b) : a = b := by
  have groups := congrArg (fun text => (text.splitOn '-').flatten) h
  simp only [splitOn_uuidText, flatten_uuidGroups] at groups
  exact Hex.text_injective groups

theorem readUuid_uuidText {id : UUID} (h : id < 16 ^ 32) : readUuid (uuidText id) = some id := by
  have hlength := Hex.length_text (by decide) h
  unfold readUuid
  rw [splitOn_uuidText]
  dsimp only
  rw [if_pos, flatten_uuidGroups, Hex.value?_text]
  simp [uuidGroups, hlength]

theorem readDate_isoDate {day : Int} (first : 0 < day) (last : day ≤ 3652059) :
    readDate (isoDate day) = some day := by
  have years := Civil.year_bounds.mpr (show Civil.daysBeforeYear 1 < day ∧
    day ≤ Civil.daysBeforeYear (9999 + 1) from ⟨first, last⟩)
  have valid := Civil.ofOrdinal_valid day
  have ordinal := Civil.ordinal_ofOrdinal day
  unfold isoDate
  generalize Civil.ofOrdinal day = date at years valid ordinal ⊢
  obtain ⟨year, month, dayOf⟩ := date
  have hvalid := valid
  obtain ⟨⟨hmonth, hmonth'⟩, hday, hday'⟩ := valid
  have := Civil.daysInMonth_le year month
  dsimp only at *
  have hread : read [(4, '-'), (2, '-')] (text [(4, '-'), (2, '-')] [year.toNat, month.toNat] ++
      pad 2 dayOf.toNat) = some ([year.toNat, month.toNat], pad 2 dayOf.toNat) :=
    read_eq_some.mpr ⟨⟨by omega, by omega, trivial⟩, rfl⟩
  have hpad : readPad 2 (pad 2 dayOf.toNat) = some (dayOf.toNat, []) :=
    readPad_eq_some.mpr ⟨by omega, (List.append_nil _).symm⟩
  unfold readDate
  rw [hread]
  dsimp only
  rw [hpad]
  dsimp only
  rw [Int.toNat_of_nonneg (by omega), Int.toNat_of_nonneg (by omega),
    Int.toNat_of_nonneg (by omega), if_pos ⟨by omega, hvalid⟩, ordinal]

theorem instantOf_clockFields {t : Int} (years : InYears t) :
    instantOf (clockFields t) (t % 1000000).toNat = some t := by
  have bounds := inYears_iff.mp years
  have valid := utcDate_valid t
  have ordinal := Civil.ordinal_ofOrdinal (t / 86400000000 + 719163)
  change Civil.ordinal (utcDate t) = _ at ordinal
  unfold clockFields
  generalize utcDate t = date at bounds valid ordinal ⊢
  obtain ⟨year, month, day⟩ := date
  have hvalid := valid
  obtain ⟨⟨hmonth, hmonth'⟩, hday, hday'⟩ := valid
  dsimp only at *
  unfold instantOf secondOf
  dsimp only
  rw [Int.toNat_of_nonneg (by omega), Int.toNat_of_nonneg (by omega),
    Int.toNat_of_nonneg (by omega), if_pos ⟨⟨by omega, hvalid⟩, by omega, by omega, by omega⟩,
    ordinal]
  congr 1
  omega

theorem readZ_isoZ {t : Int} (years : InYears t) : readZ (isoZ t) = some t := by
  have fits := clockFields_fit years
  have instant := instantOf_clockFields years
  unfold readZ isoZ
  by_cases whole : t % 1000000 = 0
  · have hread : read secondLayout (text secondLayout (clockFields t)) =
        some (clockFields t, []) := read_eq_some.mpr ⟨fits, (List.append_nil _).symm⟩
    rw [whole] at instant
    rw [if_pos whole, hread]
    exact instant
  · rw [if_neg whole]
    have hread : read clockLayout (text clockLayout (clockFields t) ++
        (pad 6 (t % 1000000).toNat ++ ['Z'])) =
        some (clockFields t, pad 6 (t % 1000000).toNat ++ ['Z']) := read_eq_some.mpr ⟨fits, rfl⟩
    have hpad : readPad 6 (pad 6 (t % 1000000).toNat ++ ['Z']) =
        some ((t % 1000000).toNat, ['Z']) := readPad_eq_some.mpr ⟨by omega, rfl⟩
    -- With microseconds the text is longer than any of whole seconds.
    have hsecond : ∀ fields, read secondLayout (text clockLayout (clockFields t) ++
        (pad 6 (t % 1000000).toNat ++ ['Z'])) ≠ some (fields, []) := by
      intro fields h
      obtain ⟨other, heq⟩ := read_eq_some.mp h
      have hlength := congrArg List.length heq
      rw [List.append_nil, length_text other, List.length_append, length_text fits,
        List.length_append, length_pad] at hlength
      simp [clockLayout, secondLayout] at hlength
    split
    · next fields heq => exact absurd heq (hsecond fields)
    · rw [hread]
      dsimp only
      rw [hpad]
      exact instant

/-- Days and instants have texts of their own. -/
theorem isoDate_injective {a b : Int} (ha : 0 < a ∧ a ≤ 3652059) (hb : 0 < b ∧ b ≤ 3652059)
    (h : isoDate a = isoDate b) : a = b := by
  have hread := readDate_isoDate ha.1 ha.2
  rw [h, readDate_isoDate hb.1 hb.2, Option.some.injEq] at hread
  exact hread.symm

theorem isoZ_injective {s t : Int} (hs : InYears s) (ht : InYears t) (h : isoZ s = isoZ t) :
    s = t := by
  have hread := readZ_isoZ hs
  rw [h, readZ_isoZ ht, Option.some.injEq] at hread
  exact hread.symm

example : isoZ 951782400000000 = "2000-02-29T00:00:00Z".toList ∧
    isoZ 951782400005000 = "2000-02-29T00:00:00.005000Z".toList ∧
    uuidText 0x00000001000200030004000000000005 =
      "00000001-0002-0003-0004-000000000005".toList := by decide +kernel

end SmartPlanner
