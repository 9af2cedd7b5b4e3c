import Mathlib.Order.Basic

/-!
The proleptic Gregorian calendar: the ordinal of a date, counted from the first
day of year 1, and the date of an ordinal. Years are integers, so there is no
first and no last one.
-/

namespace Civil

structure Date where
  year : Int
  month : Int
  day : Int
deriving DecidableEq, Repr

def Leap (year : Int) : Prop :=
  year % 4 = 0 ∧ (year % 100 ≠ 0 ∨ year % 400 = 0)

instance (year : Int) : Decidable (Leap year) :=
  inferInstanceAs (Decidable (_ ∧ _))

def daysInMonth (year month : Int) : Int :=
  if month = 2 then if Leap year then 29 else 28
  else if month = 4 ∨ month = 6 ∨ month = 9 ∨ month = 11 then 30 else 31

theorem daysInMonth_le (year month : Int) : daysInMonth year month ≤ 31 := by
  unfold daysInMonth
  split
  · split <;> decide
  · split <;> decide

namespace Date

/-- The date exists. -/
def Valid (date : Date) : Prop :=
  (1 ≤ date.month ∧ date.month ≤ 12) ∧
  (1 ≤ date.day ∧ date.day ≤ daysInMonth date.year date.month)

instance (date : Date) : Decidable date.Valid :=
  inferInstanceAs (Decidable (_ ∧ _))

/-- Earlier in the calendar: by year, then month, then day. -/
def Before (a b : Date) : Prop :=
  a.year < b.year ∨ a.year = b.year ∧
    (a.month < b.month ∨ a.month = b.month ∧ a.day < b.day)

theorem before_trichotomy (a b : Date) : a.Before b ∨ a = b ∨ b.Before a := by
  obtain ⟨year, month, day⟩ := a
  obtain ⟨year', month', day'⟩ := b
  unfold Before
  simp only [Date.mk.injEq]
  omega

end Date

/-- The days of all years before this one. -/
def daysBeforeYear (year : Int) : Int :=
  (year - 1) * 365 + (year - 1) / 4 - (year - 1) / 100 + (year - 1) / 400

/-- The days of the year before this month. -/
def daysBeforeMonth (year month : Int) : Int :=
  (367 * month - 362) / 12 - (if month ≤ 2 then 0 else if Leap year then 1 else 2)

/-- Day 1 is the first day of year 1. The month is one of the twelve, the day
may lie outside of it. -/
def ordinal (date : Date) : Int :=
  daysBeforeYear date.year + daysBeforeMonth date.year date.month + date.day

theorem daysBeforeMonth_succ (year : Int) {month : Int} (h : 1 ≤ month ∧ month < 12) :
    daysBeforeMonth year (month + 1) = daysBeforeMonth year month + daysInMonth year month := by
  unfold daysBeforeMonth daysInMonth
  have cases : month = 1 ∨ month = 2 ∨ month = 3 ∨ month = 4 ∨ month = 5 ∨ month = 6 ∨
      month = 7 ∨ month = 8 ∨ month = 9 ∨ month = 10 ∨ month = 11 := by omega
  by_cases leap : Leap year
  · rcases cases with rfl | rfl | rfl | rfl | rfl | rfl | rfl | rfl | rfl | rfl | rfl <;>
      simp [leap]
  · rcases cases with rfl | rfl | rfl | rfl | rfl | rfl | rfl | rfl | rfl | rfl | rfl <;>
      simp [leap]

theorem daysBeforeYear_succ (year : Int) :
    daysBeforeYear (year + 1) = daysBeforeYear year + if Leap year then 366 else 365 := by
  unfold daysBeforeYear
  by_cases leap : Leap year
  · rw [if_pos leap]
    unfold Leap at leap
    omega
  · rw [if_neg leap]
    unfold Leap at leap
    omega

/-- A year ends with the last day of its twelfth month. -/
theorem daysBeforeYear_succ_eq (year : Int) :
    daysBeforeYear (year + 1) =
      daysBeforeYear year + daysBeforeMonth year 12 + daysInMonth year 12 := by
  rw [daysBeforeYear_succ]
  unfold daysBeforeMonth daysInMonth
  by_cases leap : Leap year <;> simp [leap] <;> omega

theorem daysBeforeMonth_mono (year : Int) {a b : Int} (hab : a ≤ b) (ha : 1 ≤ a) (hb : b ≤ 12) :
    daysBeforeMonth year a ≤ daysBeforeMonth year b := by
  unfold daysBeforeMonth
  split <;> split <;> omega

theorem daysBeforeYear_mono {a b : Int} (h : a ≤ b) : daysBeforeYear a ≤ daysBeforeYear b := by
  unfold daysBeforeYear
  omega

/-- A date of an earlier month comes before the first day of this one. -/
theorem daysBeforeMonth_add_day {date : Date} (valid : date.Valid) {month : Int}
    (h : date.month < month) (le : month ≤ 12) :
    daysBeforeMonth date.year date.month + date.day ≤ daysBeforeMonth date.year month := by
  obtain ⟨⟨one, -⟩, -, last⟩ := valid
  have next := daysBeforeMonth_succ date.year (show 1 ≤ date.month ∧ date.month < 12 by omega)
  have mono := daysBeforeMonth_mono date.year (a := date.month + 1) (b := month) (by omega)
    (by omega) le
  omega

/-- A date of an earlier year comes before the first day of this one. -/
theorem ordinal_le_daysBeforeYear {date : Date} (valid : date.Valid) {year : Int}
    (h : date.year < year) : ordinal date ≤ daysBeforeYear year := by
  have next := daysBeforeYear_succ_eq date.year
  have mono := daysBeforeYear_mono (a := date.year + 1) (b := year) (by omega)
  have inside : daysBeforeMonth date.year date.month + date.day ≤
      daysBeforeMonth date.year 12 + daysInMonth date.year 12 := by
    have length : daysInMonth date.year 12 = 31 := rfl
    rcases Int.lt_or_le date.month 12 with before | last
    · have := daysBeforeMonth_add_day valid before (Int.le_refl _)
      omega
    · have twelve : date.month = 12 := Int.le_antisymm valid.1.2 last
      have := valid.2.2
      rw [twelve] at this ⊢
      omega
  unfold ordinal
  omega

theorem daysBeforeYear_lt_ordinal {date : Date} (valid : date.Valid) :
    daysBeforeYear date.year < ordinal date := by
  have mono := daysBeforeMonth_mono date.year (a := 1) valid.1.1 (by omega) valid.1.2
  have first : daysBeforeMonth date.year 1 = 0 := rfl
  have := valid.2.1
  unfold ordinal
  omega

/-- Ordinals order the existing dates as the calendar does. -/
theorem ordinal_lt {a b : Date} (ha : a.Valid) (hb : b.Valid) (h : a.Before b) :
    ordinal a < ordinal b := by
  rcases h with year | ⟨year, month | ⟨month, day⟩⟩
  · exact Int.lt_of_le_of_lt (ordinal_le_daysBeforeYear ha year) (daysBeforeYear_lt_ordinal hb)
  · have before := daysBeforeMonth_add_day ha month hb.1.2
    have := hb.2.1
    unfold ordinal
    rw [← year]
    omega
  · unfold ordinal
    rw [← year, ← month]
    omega

theorem ordinal_injective {a b : Date} (ha : a.Valid) (hb : b.Valid)
    (h : ordinal a = ordinal b) : a = b := by
  rcases a.before_trichotomy b with before | equal | after
  · exact absurd h (Int.ne_of_lt (ordinal_lt ha hb before))
  · exact equal
  · exact absurd h.symm (Int.ne_of_lt (ordinal_lt hb ha after))

/-- A year as cycles of 400, 100 and 4 years and the single years left. -/
theorem daysBeforeYear_cycles (cycle : Int) {century quad single : Int}
    (hcentury : 0 ≤ century ∧ century ≤ 3) (hquad : 0 ≤ quad ∧ quad ≤ 24)
    (hsingle : 0 ≤ single ∧ single ≤ 3) :
    daysBeforeYear (cycle * 400 + century * 100 + quad * 4 + single + 1) =
      cycle * 146097 + century * 36524 + quad * 1461 + single * 365 := by
  unfold daysBeforeYear
  omega

/-- The year of an ordinal. The last day of a leap cycle belongs to the cycle's
last year, hence the bounds of three. -/
def yearOf (n : Int) : Int :=
  let inCycle := (n - 1) % 146097
  let century := min (inCycle / 36524) 3
  let inCentury := inCycle - century * 36524
  let inQuad := inCentury % 1461
  (n - 1) / 146097 * 400 + century * 100 + inCentury / 1461 * 4 + min (inQuad / 365) 3 + 1

theorem yearOf_spec (n : Int) :
    daysBeforeYear (yearOf n) < n ∧ n ≤ daysBeforeYear (yearOf n + 1) := by
  have year : daysBeforeYear (yearOf n) < n ∧ (n ≤ daysBeforeYear (yearOf n) + 365 ∨
      Leap (yearOf n) ∧ n ≤ daysBeforeYear (yearOf n) + 366) := by
    unfold yearOf
    simp only
    generalize hcycle : (n - 1) / 146097 = cycle
    generalize hinCycle : (n - 1) % 146097 = inCycle
    generalize hcentury : min (inCycle / 36524) 3 = century
    generalize hinCentury : inCycle - century * 36524 = inCentury
    generalize hquad : inCentury / 1461 = quad
    generalize hinQuad : inCentury % 1461 = inQuad
    generalize hsingle : min (inQuad / 365) 3 = single
    rw [daysBeforeYear_cycles cycle (by omega) (by omega) (by omega)]
    refine ⟨by omega, ?_⟩
    -- Only the last day of a leap cycle has more than 365 days before it in its year.
    by_cases last : inQuad = 1460
    · refine Or.inr ⟨⟨by omega, ?_⟩, by omega⟩
      by_cases whole : quad = 24
      · have : century = 3 := by omega
        exact Or.inr (by omega)
      · exact Or.inl (by omega)
    · exact Or.inl (by omega)
  obtain ⟨after, common | ⟨leap, inside⟩⟩ := year
  · refine ⟨after, ?_⟩
    rw [daysBeforeYear_succ]
    split <;> omega
  · rw [daysBeforeYear_succ, if_pos leap]
    exact ⟨after, inside⟩

/-- The month of a day of the year, counted from one. -/
def monthOf (year day : Int) : Int :=
  let correction := if day ≤ daysBeforeMonth year 3 then 0 else if Leap year then 1 else 2
  (12 * (day - 1 + correction) + 373) / 367

theorem monthOf_spec (year : Int) {day : Int} (first : 1 ≤ day)
    (last : day ≤ if Leap year then 366 else 365) :
    (1 ≤ monthOf year day ∧ monthOf year day ≤ 12) ∧
    daysBeforeMonth year (monthOf year day) < day ∧
    day ≤ daysBeforeMonth year (monthOf year day) + daysInMonth year (monthOf year day) := by
  unfold monthOf
  by_cases leap : Leap year
  · simp only [leap, if_true, daysBeforeMonth, daysInMonth] at last ⊢
    omega
  · simp only [leap, if_false, daysBeforeMonth, daysInMonth] at last ⊢
    omega

/-- The date of an ordinal. -/
def ofOrdinal (n : Int) : Date :=
  let year := yearOf n
  let day := n - daysBeforeYear year
  let month := monthOf year day
  ⟨year, month, day - daysBeforeMonth year month⟩

theorem ordinal_ofOrdinal (n : Int) : ordinal (ofOrdinal n) = n := by
  unfold ordinal ofOrdinal
  simp only
  omega

theorem ofOrdinal_valid (n : Int) : (ofOrdinal n).Valid := by
  obtain ⟨after, inside⟩ := yearOf_spec n
  rw [daysBeforeYear_succ] at inside
  obtain ⟨month, first, last⟩ := monthOf_spec (yearOf n)
    (show 1 ≤ n - daysBeforeYear (yearOf n) by omega) (by omega)
  refine ⟨month, ?_⟩
  unfold ofOrdinal
  simp only
  omega

theorem ofOrdinal_ordinal {date : Date} (valid : date.Valid) :
    ofOrdinal (ordinal date) = date :=
  ordinal_injective (ofOrdinal_valid _) valid (ordinal_ofOrdinal _)

/-- Later days have later dates. -/
theorem ofOrdinal_before {m n : Int} (h : m < n) : (ofOrdinal m).Before (ofOrdinal n) := by
  rcases (ofOrdinal m).before_trichotomy (ofOrdinal n) with before | equal | after
  · exact before
  · have := congrArg ordinal equal
    rw [ordinal_ofOrdinal, ordinal_ofOrdinal] at this
    omega
  · have := ordinal_lt (ofOrdinal_valid n) (ofOrdinal_valid m) after
    rw [ordinal_ofOrdinal, ordinal_ofOrdinal] at this
    omega

/-- The years from one on are those of the ordinals after all earlier years. -/
theorem le_year_iff {first n : Int} : first ≤ (ofOrdinal n).year ↔ daysBeforeYear first < n := by
  obtain ⟨after, inside⟩ := yearOf_spec n
  change first ≤ yearOf n ↔ _
  constructor
  · intro h
    have := daysBeforeYear_mono h
    omega
  · intro h
    by_contra before
    have := daysBeforeYear_mono (show yearOf n + 1 ≤ first by omega)
    omega

/-- The years from `first` to `last` are a range of ordinals. -/
theorem year_bounds {first last n : Int} :
    (first ≤ (ofOrdinal n).year ∧ (ofOrdinal n).year ≤ last) ↔
      (daysBeforeYear first < n ∧ n ≤ daysBeforeYear (last + 1)) := by
  have after : last + 1 ≤ (ofOrdinal n).year ↔ daysBeforeYear (last + 1) < n := le_year_iff
  rw [le_year_iff]
  omega

/-- The numbers of a date, the year first. -/
def Date.numbers (date : Date) : List Nat :=
  [date.year.toNat, date.month.toNat, date.day.toNat]

/-- The numbers of an earlier date come first, whatever follows. -/
theorem Date.Before.numbers_append_lt {a b : Date} (before : a.Before b) (valid : a.Valid)
    (year : 0 ≤ a.year) (xs ys : List Nat) : a.numbers ++ xs < b.numbers ++ ys := by
  obtain ⟨hmonth, hday⟩ := valid
  simp only [Date.numbers, List.cons_append, List.nil_append, List.cons_lt_cons_iff]
  rcases before with years | ⟨years, months | ⟨months, days⟩⟩
  · exact Or.inl (by omega)
  · exact Or.inr ⟨by rw [years], Or.inl (by omega)⟩
  · exact Or.inr ⟨by rw [years], Or.inr ⟨by rw [months], Or.inl (by omega)⟩⟩

end Civil
