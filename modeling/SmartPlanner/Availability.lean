import SmartPlanner.PlannerTime
import SmartPlanner.Library.Outcome
import Mathlib.Data.Char
import Mathlib.Data.List.Lex

/-!
Availability windows that the browser builds for a row of days, the other half of
`planner_time.mjs`: the conversion keeps the order of the wall times it accepts,
so the windows come in order and apart, each on its own calendar day.
-/

namespace SmartPlanner.PlannerTime

open Decimal Function Outcome Settling

def closedWindow : RangeError := ⟨"پایان وقت آزاد باید بعد از شروع آن باشد."⟩

/-- What `toISOString` throws for a date that is no number. -/
def invalidDate : RangeError := ⟨"Invalid time value"⟩

/-- `Number` of a part of a date text. Parts that are not all digits count as no
number; a date input has no others. -/
def number (part : List Char) : Option Int :=
  if part.all Char.isDigit then some (Nat.ofDigitChars 10 part 0) else none

/-- The days up to which a `Date` holds a number lie within a hundred million of
the first. -/
def addDays (date : List Char) (days : Nat) : Except RangeError (List Char) :=
  match (date.splitOn '-').map number with
  | some year :: some month :: some day :: _ =>
    let instant := dateUTC year (month - 1) (day + days) 0 0
    if -8640000000000000 ≤ instant ∧ instant ≤ 8640000000000000 then
      .ok ((toISOString instant).take 10)
    else .error invalidDate
  | _ => .error invalidDate

structure Window where
  start : Option Int
  stop : Option Int
deriving DecidableEq, Repr

/-- The window of one day of the row. -/
def dayWindow (startDate startClock endClock : List Char) (zone : TimeZone) (offset : Nat) :
    Except RangeError Window := do
  let day ← addDays startDate offset
  let start ← localToIso (day ++ 'T' :: startClock) zone
  let stop ← localToIso (day ++ 'T' :: endClock) zone
  pure ⟨start, stop⟩

def availabilityForDays (startDate : List Char) (days : Nat) (startClock endClock : List Char)
    (zone : TimeZone) : Except RangeError (List Window) :=
  if ¬ startClock < endClock then .error closedWindow
  else (List.range days).mapM (dayWindow startDate startClock endClock zone)

section Order

variable {zone : TimeZone} {change change' : Change} {wall wall' instant instant' : Int}

/-- Where the offset moves between two instants, the change lies between them. -/
theorem Change.OnlyOne.between (once : change.OnlyOne zone wall)
    (lower : wall - 172800000 ≤ instant') (upper : instant ≤ wall + 172800000)
    (earlier : instant' ≤ instant) (moves : zone.offset instant' ≠ zone.offset instant) :
    (instant' < change.instant ∧ change.instant ≤ instant) ∧
      change.before = zone.offset instant' ∧ change.after = zone.offset instant := by
  have first := once instant' lower (by omega)
  have last := once instant (by omega) upper
  split at first <;> split at last <;> omega

/-- The second attempt subtracts the offset that the zone has after the first. -/
theorem second_attempt (zone : TimeZone) (past : PastCentury wall) :
    (next zone wall)^[2] wall =
      wall - zone.offset (wall - zone.offset wall * 60000) * 60000 := by
  change next zone wall (next zone wall wall) = _
  have near := near_sub_offset past zone wall
  rw [next_near zone past (near_self past), next_near zone past near]

/-- Later wall times are found at later instants. A repeated time is found after
the change when it is read as UTC after the change, and before it otherwise. -/
theorem attempts_lt (past : PastCentury wall) (past' : PastCentury wall')
    (once : change.OnlyOne zone wall) (once' : change'.OnlyOne zone wall') (walls : wall < wall')
    (clock : zone.clock ((next zone wall)^[2] wall) = wall)
    (clock' : zone.clock ((next zone wall')^[2] wall') = wall') :
    (next zone wall)^[2] wall < (next zone wall')^[2] wall' := by
  have near := near_of_clock past clock
  have near' := near_of_clock past' clock'
  have second := second_attempt zone past
  have second' := second_attempt zone past'
  have nearFirst := near_sub_offset past zone wall
  have nearFirst' := near_sub_offset past' zone wall'
  generalize (next zone wall)^[2] wall = instant at *
  generalize (next zone wall')^[2] wall' = instant' at *
  unfold TimeZone.clock at clock clock'
  by_contra late
  unfold Near at near near' nearFirst nearFirst'
  obtain ⟨⟨opens, opened⟩, before, after⟩ := once.between (by omega : wall - 172800000 ≤ instant')
    near.2.2 (by omega) (by omega)
  obtain ⟨⟨opens', opened'⟩, before', after'⟩ := once'.between near'.2.1
    (by omega : instant ≤ wall' + 172800000) (by omega) (by omega)
  have reached : change.instant ≤ wall := by
    by_contra ahead
    have first := once wall (by omega) (by omega)
    rw [if_pos (by omega)] at first
    have again := once (wall - zone.offset wall * 60000) nearFirst.2.1 nearFirst.2.2
    rw [if_pos (by omega)] at again
    omega
  have missed : wall' < change'.instant := by
    by_contra behind
    have first := once' wall' (by omega) (by omega)
    rw [if_neg (by omega)] at first
    have again := once' (wall' - zone.offset wall' * 60000) nearFirst'.2.1 nearFirst'.2.2
    rw [if_neg (by omega)] at again
    omega
  have one := once wall (by omega) (by omega)
  have other := once' wall (by omega) (by omega)
  rw [if_neg (by omega)] at one
  rw [if_pos (by omega)] at other
  omega

end Order

/-- An accepted value is a wall time, converted by the second attempt. -/
theorem localToIso_ok {value : List Char} {fields : WallTime} {zone : TimeZone}
    {result : Option Int} (h : readWall value = some fields) (year : 1000 ≤ fields.year)
    {change : Change} (once : change.OnlyOne zone fields.utc)
    (accepted : localToIso value zone = .ok result) :
    result = some ((next zone fields.utc)^[2] fields.utc) ∧
      zone.Reads ((next zone fields.utc)^[2] fields.utc) fields := by
  rcases localToIsoWithin_spec h year once with ⟨instant, -, ok⟩ | ⟨-, error⟩
  · have five : localToIso value zone = .ok (some instant) := ok 5 (by decide)
    rcases localToIsoWithin_eq h year 2 zone rfl with ⟨reads, two⟩ | ⟨-, two⟩
    · rw [settle_eq_iterate] at reads two
      rw [ok 2 (Nat.le_refl 2), Except.ok.injEq] at two
      rw [five, Except.ok.injEq] at accepted
      exact ⟨accepted.symm.trans two, reads⟩
    · rw [ok 2 (Nat.le_refl 2)] at two
      cases two
  · have five : localToIso value zone = .error missingTime := error 5
    rw [five] at accepted
    cases accepted

theorem localToIso_read {value : List Char} {zone : TimeZone} {result : Option Int}
    (filled : value ≠ []) (h : localToIso value zone = .ok result) :
    ∃ fields, readWall value = some fields := by
  unfold localToIso localToIsoWithin at h
  rw [if_neg filled] at h
  cases hread : readWall value with
  | none =>
    rw [hread] at h
    cases h
  | some fields => exact ⟨fields, rfl⟩

/-- The date of a wall time. -/
def WallTime.date (fields : WallTime) : Civil.Date := ⟨fields.year, fields.month, fields.day⟩

/-- Later wall times have later texts. -/
theorem value_lt_of_utc_lt {value value' : List Char} {fields fields' : WallTime}
    (h : readWall value = some fields) (h' : readWall value' = some fields')
    (possible : fields.Possible) (possible' : fields'.Possible)
    (year : 1000 ≤ fields.year) (year' : 1000 ≤ fields'.year)
    (lt : fields.utc < fields'.utc) : value < value' := by
  rw [utc_possible possible (by omega), utc_possible possible' (by omega)] at lt
  obtain ⟨valid, hour, minute⟩ := possible
  obtain ⟨valid', hour', minute'⟩ := possible'
  obtain ⟨y, m, d, hours, minutes, rfl, ⟨fits, below⟩, rfl⟩ := readWall_eq_some h
  obtain ⟨y', m', d', hours', minutes', rfl, ⟨fits', below'⟩, rfl⟩ := readWall_eq_some h'
  simp only at *
  rcases Civil.Date.before_trichotomy ⟨y, m, d⟩ ⟨y', m', d'⟩ with before | same | after
  · have numbers := before.numbers_append_lt valid (by simp only; omega) [hours] [hours']
    exact text_append_lt fits fits' numbers _ _
  · rw [same] at lt
    simp only [Civil.Date.mk.injEq, Int.natCast_inj] at same
    obtain ⟨rfl, rfl, rfl⟩ := same
    by_cases hours_eq : hours = hours'
    · subst hours_eq
      have last := pad_append_lt (show minutes < minutes' by omega) below' [] []
      rw [List.append_nil, List.append_nil] at last
      exact List.append_left_lt last
    · refine text_append_lt fits fits' ?_ _ _
      simp only [List.cons_lt_cons_iff, true_and]
      exact Or.inr (Or.inr (Or.inr (Or.inl (by omega))))
  · have := Civil.ordinal_lt valid' valid after
    omega

/-- The wall times of two texts are ordered as the texts are. -/
theorem utc_lt_of_value_lt {value value' : List Char} {fields fields' : WallTime}
    (h : readWall value = some fields) (h' : readWall value' = some fields')
    (possible : fields.Possible) (possible' : fields'.Possible)
    (year : 1000 ≤ fields.year) (year' : 1000 ≤ fields'.year)
    (lt : value < value') : fields.utc < fields'.utc := by
  rcases Int.lt_trichotomy fields.utc fields'.utc with less | same | more
  · exact less
  · have equal : fields = fields' := by
      rw [← ofMinutes_utc possible (by omega), same, ofMinutes_utc possible' (by omega)]
    obtain ⟨y, m, d, hour, minute, rfl, -, rfl⟩ := readWall_eq_some h
    obtain ⟨y', m', d', hour', minute', same', -, rfl⟩ := readWall_eq_some h'
    rw [← equal] at same'
    simp only [WallTime.mk.injEq, Int.natCast_inj] at same'
    obtain ⟨rfl, rfl, rfl, rfl, rfl⟩ := same'
    exact absurd lt (lt_irrefl _)
  · exact absurd lt (lt_asymm (value_lt_of_utc_lt h' h possible' possible year' year more))

/-- The zone changes its offset at most once around the wall time of a value. -/
def OnceAround (zone : TimeZone) (value : List Char) : Prop :=
  ∀ fields, readWall value = some fields → ∃ change : Change, change.OnlyOne zone fields.utc

/-- The value names a wall time of the years from 1000 on. -/
def LaterYear (value : List Char) : Prop :=
  ∀ fields, readWall value = some fields → 1000 ≤ fields.year

/-- Of two accepted values the later one is the later instant. -/
theorem localToIso_lt {zone : TimeZone} {value value' : List Char} {instant instant' : Int}
    (years : LaterYear value) (years' : LaterYear value') (once : OnceAround zone value)
    (once' : OnceAround zone value') (lt : value < value')
    (h : localToIso value zone = .ok (some instant))
    (h' : localToIso value' zone = .ok (some instant')) : instant < instant' := by
  have filled : ∀ {value instant}, localToIso value zone = .ok (some instant) → value ≠ [] := by
    rintro value instant h rfl
    cases h
  obtain ⟨fields, read⟩ := localToIso_read (filled h) h
  obtain ⟨fields', read'⟩ := localToIso_read (filled h') h'
  have year := years fields read
  have year' := years' fields' read'
  obtain ⟨change, once⟩ := once fields read
  obtain ⟨change', once'⟩ := once' fields' read'
  obtain ⟨found, reads⟩ := localToIso_ok read year once h
  obtain ⟨found', reads'⟩ := localToIso_ok read' year' once' h'
  obtain ⟨possible, clock⟩ := (TimeZone.reads_iff (by omega)).mp reads
  obtain ⟨possible', clock'⟩ := (TimeZone.reads_iff (by omega)).mp reads'
  rw [Option.some.inj found, Option.some.inj found']
  exact attempts_lt (pastCentury_utc read year) (pastCentury_utc read' year') once once'
    (utc_lt_of_value_lt read read' possible possible' year year' lt) clock clock'

/-- The text of a date. -/
def dateText (date : Civil.Date) : List Char :=
  text [(4, '-'), (2, '-')] [date.year.toNat, date.month.toNat] ++ pad 2 date.day.toNat

theorem length_dateText (date : Civil.Date) : (dateText date).length = 10 := by
  simp [dateText, text]

/-- The marks after the fields of a date that a clock follows. -/
def dayLayout : List (Nat × Char) := [(4, '-'), (2, '-'), (2, 'T')]

theorem dateText_append (date : Civil.Date) (clock : List Char) :
    dateText date ++ 'T' :: clock = text dayLayout date.numbers ++ clock := by
  simp [dateText, dayLayout, text, Civil.Date.numbers]

theorem numbers_fit {date : Civil.Date} (valid : date.Valid) (year : date.year ≤ 9999) :
    Fits dayLayout date.numbers := by
  obtain ⟨month, day⟩ := valid
  have length := Civil.daysInMonth_le date.year date.month
  simp only [Fits, dayLayout, Civil.Date.numbers, and_true]
  omega

/-- A calendar day in the four-digit years is written as its date. -/
theorem toISOString_take {t : Int} {date : Civil.Date}
    (day : Civil.ofOrdinal (t / 86400000 + 719163) = date)
    (year : 0 ≤ date.year ∧ date.year ≤ 9999) : (toISOString t).take 10 = dateText date := by
  have written : toISOString t = dateText date ++ 'T' ::
      (text [(2, ':'), (2, ':'), (2, '.')] [(t / 3600000 % 24).toNat, (t / 60000 % 60).toNat,
        (t / 1000 % 60).toNat] ++ (pad 3 (t % 1000).toNat ++ ['Z'])) := by
    unfold toISOString yearText
    simp only
    rw [day, if_pos year]
    simp [dateText, isoLayout, text]
  rw [written]
  exact List.take_left' (length_dateText date)

/-- A day outside of the four-digit years makes no value that can be read. -/
theorem year_of_readWall {t : Int} {clock : List Char} {fields : WallTime}
    (h : readWall ((toISOString t).take 10 ++ 'T' :: clock) = some fields) :
    0 ≤ (Civil.ofOrdinal (t / 86400000 + 719163)).year ∧
      (Civil.ofOrdinal (t / 86400000 + 719163)).year ≤ 9999 := by
  by_contra outside
  obtain ⟨y, m, d, hours, minutes, -, ⟨fits, -⟩, same⟩ := readWall_eq_some h
  unfold toISOString yearText at same
  simp only at same
  rw [if_neg outside] at same
  have digit : (Nat.digitChar (y / 10 ^ 3)).isDigit := by
    rw [Nat.isDigit_digitChar]
    exact decide_eq_true (leading_lt fits.1)
  have head := (List.cons.inj same).1
  rw [← head] at digit
  split at digit <;> exact absurd digit (by decide)

theorem number_pad {width n : Nat} (h : n < 10 ^ width) :
    number (pad width n) = some (n : Int) := by
  have digits : (pad width n).all Char.isDigit := by
    rw [List.all_eq_true]
    exact fun c hc => isDigit_of_mem_pad h hc
  unfold number
  rw [if_pos digits, ofDigitChars_pad h]

/-- The days after a date count on from its ordinal. -/
theorem addDays_ok {date : Civil.Date} (valid : date.Valid)
    (year : 1000 ≤ date.year ∧ date.year ≤ 9999) {days : Nat} {day : List Char}
    (h : addDays (dateText date) days = .ok day) :
    day = (toISOString ((Civil.ordinal date + days - 719163) * 86400000)).take 10 := by
  obtain ⟨month, hday⟩ := valid
  have length := Civil.daysInMonth_le date.year date.month
  have hyphen : ∀ {width n : Nat}, n < 10 ^ width → '-' ∉ pad width n := fun below mark =>
    absurd (isDigit_of_mem_pad below mark) (by decide)
  have split : (dateText date).splitOn '-' =
      [pad 4 date.year.toNat, pad 2 date.month.toNat, pad 2 date.day.toNat] := by
    simp only [dateText, text, List.append_assoc, List.cons_append, List.nil_append]
    rw [List.splitOn_append_cons_self_of_not_mem (hyphen (by omega)),
      List.splitOn_append_cons_self_of_not_mem (hyphen (by omega)),
      List.splitOn_eq_singleton (hyphen (by omega))]
  have count : dateUTC date.year.toNat (date.month.toNat - 1) (date.day.toNat + days) 0 0 =
      (Civil.ordinal date + days - 719163) * 86400000 := by
    have whole : (date.year.toNat : Int) + ((date.month.toNat : Int) - 1) / 12 = date.year := by
      omega
    have counted : ((date.month.toNat : Int) - 1) % 12 + 1 = date.month := by omega
    unfold dateUTC Civil.ordinal
    simp only
    rw [if_neg (by omega), whole, counted]
    omega
  unfold addDays at h
  rw [split] at h
  simp only [List.map_cons, List.map_nil, number_pad (show date.year.toNat < 10 ^ 4 by omega),
    number_pad (show date.month.toNat < 10 ^ 2 by omega),
    number_pad (show date.day.toNat < 10 ^ 2 by omega), count] at h
  split at h
  · exact (Except.ok.inj h).symm
  · cases h

/-- The calendar day so many days after a date. -/
def dayAfter (date : Civil.Date) (offset : Nat) : Civil.Date :=
  Civil.ofOrdinal (Civil.ordinal date + offset)

/-- The value that a clock stands for on a day. -/
def boundary (date : Civil.Date) (offset : Nat) (clock : List Char) : List Char :=
  dateText (dayAfter date offset) ++ 'T' :: clock

section Boundary

variable {zone : TimeZone} {date : Civil.Date} {offset : Nat} {clock : List Char}

theorem dayAfter_year (valid : date.Valid) (year : 1000 ≤ date.year) (offset : Nat) :
    1000 ≤ (dayAfter date offset).year := by
  refine Civil.le_year_iff.mpr ?_
  have first := Civil.daysBeforeYear_mono year
  have inside := Civil.daysBeforeYear_lt_ordinal valid
  omega

/-- A value on a day names that day. -/
theorem readWall_dateText {fields : WallTime} (valid : date.Valid)
    (year : 0 ≤ date.year ∧ date.year ≤ 9999)
    (h : readWall (dateText date ++ 'T' :: clock) = some fields) : fields.date = date := by
  obtain ⟨y, m, d, hours, minutes, rfl, ⟨⟨hy, hm, hd, -⟩, -⟩, same⟩ := readWall_eq_some h
  have read : text ((4, '-') :: wallLayout) [y, m, d, hours] ++ pad 2 minutes =
      text dayLayout [y, m, d] ++ (pad 2 hours ++ ':' :: pad 2 minutes) := by
    simp [text, wallLayout, dayLayout]
  have fits : Fits dayLayout [y, m, d] := ⟨hy, hm, hd, trivial⟩
  rw [dateText_append, read] at same
  obtain ⟨numbers, -⟩ := text_append_inj (numbers_fit valid year.2) fits same
  obtain ⟨month, day⟩ := valid
  obtain ⟨year', month', day'⟩ := date
  simp only [Civil.Date.numbers, List.cons.injEq, and_true] at numbers
  simp only [WallTime.date, Civil.Date.mk.injEq]
  simp only at year month day
  omega

/-- Values of an earlier day come first. -/
theorem boundary_lt {later : Nat} (h : offset < later) (first : 0 ≤ (dayAfter date offset).year)
    (last : (dayAfter date offset).year ≤ 9999) (last' : (dayAfter date later).year ≤ 9999)
    (xs ys : List Char) : boundary date offset xs < boundary date later ys := by
  have before : (dayAfter date offset).Before (dayAfter date later) :=
    Civil.ofOrdinal_before (by omega)
  have valid : (dayAfter date offset).Valid := Civil.ofOrdinal_valid _
  have valid' : (dayAfter date later).Valid := Civil.ofOrdinal_valid _
  have numbers := before.numbers_append_lt valid first [] []
  rw [List.append_nil, List.append_nil] at numbers
  unfold boundary
  rw [dateText_append, dateText_append]
  exact text_append_lt (numbers_fit valid last) (numbers_fit valid' last') numbers xs ys

theorem laterYear_boundary (valid : date.Valid) (year : 1000 ≤ date.year)
    (last : (dayAfter date offset).year ≤ 9999) : LaterYear (boundary date offset clock) := by
  intro fields read
  have first := dayAfter_year valid year offset
  have bounds : 0 ≤ (dayAfter date offset).year ∧ (dayAfter date offset).year ≤ 9999 := by omega
  have named := readWall_dateText (Civil.ofOrdinal_valid _) bounds read
  have same : fields.year = (dayAfter date offset).year := congrArg Civil.Date.year named
  rw [same]
  exact first

/-- The instant that a value is converted to. -/
def found (zone : TimeZone) (value : List Char) : Int :=
  match localToIso value zone with
  | .ok (some instant) => instant
  | _ => 0

/-- A boundary that is converted lies in the four-digit years, and its instant on
the intended day. -/
theorem boundary_ok (valid : date.Valid) (year : 1000 ≤ date.year) (year' : date.year ≤ 9998)
    {day : List Char} {result : Option Int} (hday : addDays (dateText date) offset = .ok day)
    (h : localToIso (day ++ 'T' :: clock) zone = .ok result)
    (once : OnceAround zone (boundary date offset clock)) :
    (dayAfter date offset).year ≤ 9999 ∧
    result = some (found zone (boundary date offset clock)) ∧
    localToIso (boundary date offset clock) zone =
      .ok (some (found zone (boundary date offset clock))) ∧
    (zone.wallTime (found zone (boundary date offset clock))).date = dayAfter date offset := by
  have counted := addDays_ok valid (by omega) hday
  obtain ⟨fields, read⟩ := localToIso_read (by simp) h
  have first := dayAfter_year valid year offset
  have inYears := year_of_readWall (counted ▸ read)
  have ordinal : (Civil.ordinal date + offset - 719163) * 86400000 / 86400000 + 719163 =
      Civil.ordinal date + offset := by omega
  rw [ordinal] at inYears
  have written : day ++ 'T' :: clock = boundary date offset clock :=
    congrArg (· ++ 'T' :: clock)
      (counted.trans (toISOString_take (congrArg Civil.ofOrdinal ordinal) inYears))
  rw [written] at h read
  have later := laterYear_boundary valid year inYears.2 fields read
  have named := readWall_dateText (Civil.ofOrdinal_valid _) inYears read
  obtain ⟨change, once⟩ := once fields read
  obtain ⟨rfl, reads⟩ := localToIso_ok read later once h
  have value : found zone (boundary date offset clock) =
      (next zone fields.utc)^[2] fields.utc := by
    unfold found
    rw [h]
  rw [value, reads.1]
  exact ⟨inYears.2, rfl, h, named⟩

/-- A window that is built spans its day from one clock to the other. -/
theorem dayWindow_ok {startClock endClock : List Char} {window : Window} (valid : date.Valid)
    (year : 1000 ≤ date.year) (year' : date.year ≤ 9998)
    (once : ∀ clock ∈ [startClock, endClock], OnceAround zone (boundary date offset clock))
    (h : dayWindow (dateText date) startClock endClock zone offset = .ok window) :
    (dayAfter date offset).year ≤ 9999 ∧
    window = ⟨some (found zone (boundary date offset startClock)),
      some (found zone (boundary date offset endClock))⟩ ∧
    ∀ clock ∈ [startClock, endClock],
      localToIso (boundary date offset clock) zone =
        .ok (some (found zone (boundary date offset clock))) ∧
      (zone.wallTime (found zone (boundary date offset clock))).date = dayAfter date offset := by
  unfold dayWindow at h
  simp only [bind_ok, pure_eq_ok, Except.ok.injEq] at h
  obtain ⟨day, hday, start, hstart, stop, hstop, rfl⟩ := h
  simp only [List.forall_mem_cons, List.not_mem_nil, false_implies, implies_true, and_true]
    at once ⊢
  obtain ⟨last, rfl, opens⟩ := boundary_ok valid year year' hday hstart once.1
  obtain ⟨-, rfl, closes⟩ := boundary_ok valid year year' hday hstop once.2
  exact ⟨last, rfl, opens, closes⟩

end Boundary

/-- The conversion is strictly increasing on the values it accepts. Windows that
are returned therefore start before they end and come one after the other, each
with both ends on its own calendar day. -/
theorem availabilityForDays_ordered (zone : TimeZone) :
    (∀ (value value' : List Char) (instant instant' : Int), LaterYear value → LaterYear value' →
      OnceAround zone value → OnceAround zone value' → value < value' →
      localToIso value zone = .ok (some instant) → localToIso value' zone = .ok (some instant') →
      instant < instant') ∧
    ∀ (date : Civil.Date) (days : Nat) (startClock endClock : List Char) (windows : List Window),
      date.Valid → 1000 ≤ date.year ∧ date.year ≤ 9998 →
      (∀ offset < days, ∀ clock ∈ [startClock, endClock],
        OnceAround zone (boundary date offset clock)) →
      availabilityForDays (dateText date) days startClock endClock zone = .ok windows →
      ∃ start stop : Nat → Int,
        windows = (List.range days).map (fun offset => ⟨some (start offset), some (stop offset)⟩) ∧
        (∀ offset < days, start offset < stop offset ∧
          (zone.wallTime (start offset)).date = dayAfter date offset ∧
          (zone.wallTime (stop offset)).date = dayAfter date offset) ∧
        ∀ offset later, offset < later → later < days → stop offset < start later := by
  refine ⟨fun value value' instant instant' => localToIso_lt, ?_⟩
  intro date days startClock endClock windows valid year once h
  unfold availabilityForDays at h
  split at h
  · cases h
  · rename_i clocks
    rw [not_not] at clocks
    have built : ∀ offset < days, ∃ window,
        dayWindow (dateText date) startClock endClock zone offset = .ok window := by
      intro offset hoffset
      obtain ⟨window, -, hwindow⟩ := exists_of_mapM_ok h offset (List.mem_range.mpr hoffset)
      exact ⟨window, hwindow⟩
    have later : ∀ offset < days, (dayAfter date offset).year ≤ 9999 := by
      intro offset hoffset
      obtain ⟨window, hwindow⟩ := built offset hoffset
      exact (dayWindow_ok valid year.1 year.2 (once offset hoffset) hwindow).1
    have converted : ∀ offset < days, ∀ clock ∈ [startClock, endClock],
        localToIso (boundary date offset clock) zone =
          .ok (some (found zone (boundary date offset clock))) ∧
        (zone.wallTime (found zone (boundary date offset clock))).date =
          dayAfter date offset := by
      intro offset hoffset
      obtain ⟨window, hwindow⟩ := built offset hoffset
      exact (dayWindow_ok valid year.1 year.2 (once offset hoffset) hwindow).2.2
    have increases : ∀ offset < days, ∀ offset' < days, ∀ clock ∈ [startClock, endClock],
        ∀ clock' ∈ [startClock, endClock],
        boundary date offset clock < boundary date offset' clock' →
        found zone (boundary date offset clock) < found zone (boundary date offset' clock') := by
      intro offset hoffset offset' hoffset' clock hclock clock' hclock' lt
      exact localToIso_lt (laterYear_boundary valid year.1 (later offset hoffset))
        (laterYear_boundary valid year.1 (later offset' hoffset'))
        (once offset hoffset clock hclock) (once offset' hoffset' clock' hclock') lt
        (converted offset hoffset clock hclock).1 (converted offset' hoffset' clock' hclock').1
    have opening : startClock ∈ [startClock, endClock] := by simp
    have closing : endClock ∈ [startClock, endClock] := by simp
    refine ⟨fun offset => found zone (boundary date offset startClock),
      fun offset => found zone (boundary date offset endClock), ?_, ?_, ?_⟩
    · rw [← List.map_id windows]
      refine map_eq_of_mapM_ok_mem (fun offset hoffset window hwindow => ?_) h
      have hoffset := List.mem_range.mp hoffset
      exact (dayWindow_ok valid year.1 year.2 (once offset hoffset) hwindow).2.1
    · intro offset hoffset
      have clocksLt : boundary date offset startClock < boundary date offset endClock :=
        List.append_left_lt (List.cons_lt_cons_iff.mpr (Or.inr ⟨rfl, clocks⟩))
      exact ⟨increases offset hoffset offset hoffset _ opening _ closing clocksLt,
        (converted offset hoffset _ opening).2, (converted offset hoffset _ closing).2⟩
    · intro offset other lt hother
      have first := dayAfter_year valid year.1 offset
      have hoffset : offset < days := Nat.lt_trans lt hother
      exact increases offset hoffset other hother _ closing _ opening
        (boundary_lt lt (by omega) (later offset hoffset) (later other hother) _ _)

/-- The weekend on which the clocks of Berlin go forward. -/
theorem availabilityForDays_ordered_berlin :
    ∃ start stop : Nat → Int,
      availabilityForDays "2026-03-28".toList 2 "09:00".toList "18:00".toList berlin =
        .ok ((List.range 2).map fun offset => ⟨some (start offset), some (stop offset)⟩) ∧
      stop 0 < start 1 ∧ (berlin.wallTime (stop 1)).date = ⟨2026, 3, 29⟩ := by
  have built : availabilityForDays (dateText ⟨2026, 3, 28⟩) 2 "09:00".toList "18:00".toList berlin =
      .ok [⟨some 1774684800000, some 1774717200000⟩, ⟨some 1774767600000, some 1774800000000⟩] := by
    decide +kernel
  have once : ∀ offset < 2, ∀ clock ∈ ["09:00".toList, "18:00".toList],
      OnceAround berlin (boundary ⟨2026, 3, 28⟩ offset clock) :=
    fun _ _ _ _ fields _ => ⟨berlinChange, fun _ _ _ => rfl⟩
  obtain ⟨start, stop, windows, days, ordered⟩ := (availabilityForDays_ordered berlin).2
    ⟨2026, 3, 28⟩ 2 "09:00".toList "18:00".toList _ (by decide) (by decide) once built
  have named : dateText ⟨2026, 3, 28⟩ = "2026-03-28".toList := by decide +kernel
  rw [windows, named] at built
  refine ⟨start, stop, built, ordered 0 1 (by decide) (by decide), ?_⟩
  rw [(days 1 (by decide)).2.2]
  decide

end SmartPlanner.PlannerTime
