import SmartPlanner.Library.Civil
import SmartPlanner.Library.Decimal
import SmartPlanner.Library.Settling

/-!
`planner_time.mjs`: the wall-clock values of forms in the account's timezone.
Instants and clock readings are milliseconds from 1970-01-01T00:00. An instant
stands for its ISO text, which `toISOString` and `new Date` convert both ways.
-/

namespace SmartPlanner.PlannerTime

open Decimal Function Settling

/-- The fields of a wall-clock value, the month counted from one. -/
structure WallTime where
  year : Int
  month : Int
  day : Int
  hour : Int
  minute : Int
deriving DecidableEq, Repr

/-- A timezone as `Intl.DateTimeFormat` applies it: the minutes that its clocks
are ahead of UTC at each instant, at most two days either way. -/
structure TimeZone where
  offset : Int → Int
  bounded : ∀ instant, -2880 ≤ offset instant ∧ offset instant ≤ 2880

structure RangeError where
  message : String
deriving DecidableEq, Repr

def invalidTime : RangeError := ⟨"زمان واردشده معتبر نیست."⟩

def missingTime : RangeError :=
  ⟨"این ساعت در منطقهٔ زمانی حساب وجود ندارد؛ ساعت دیگری انتخاب کنید."⟩

/-- `Date.UTC`: the month counts from zero, a field outside of its range carries
over, and the years 0 to 99 are read as 1900 to 1999. -/
def dateUTC (year month day hour minute : Int) : Int :=
  let year := if 0 ≤ year ∧ year ≤ 99 then 1900 + year else year
  (Civil.ordinal ⟨year + month / 12, month % 12 + 1, day⟩ - 719163) * 86400000 +
    hour * 3600000 + minute * 60000

/-- The year of `toISOString`: four digits, or a sign and six. -/
def yearText (year : Int) : List Char :=
  if 0 ≤ year ∧ year ≤ 9999 then pad 4 year.toNat
  else (if year < 0 then '-' else '+') :: pad 6 year.natAbs

/-- The marks after the month and the following fields of `toISOString`. -/
def isoLayout : List (Nat × Char) := [(2, '-'), (2, 'T'), (2, ':'), (2, ':'), (2, '.')]

/-- `new Date(instant).toISOString()`. -/
def toISOString (instant : Int) : List Char :=
  let date := Civil.ofOrdinal (instant / 86400000 + 719163)
  yearText date.year ++ '-' ::
    (text isoLayout [date.month.toNat, date.day.toNat, (instant / 3600000 % 24).toNat,
      (instant / 60000 % 60).toNat, (instant / 1000 % 60).toNat] ++
      (pad 3 (instant % 1000).toNat ++ ['Z']))

namespace WallTime

/-- The fields of a count of whole minutes. -/
def ofMinutes (minutes : Int) : WallTime :=
  let date := Civil.ofOrdinal (minutes / 1440 + 719163)
  ⟨date.year, date.month, date.day, minutes % 1440 / 60, minutes % 60⟩

/-- The fields read as UTC. -/
def utc (fields : WallTime) : Int :=
  dateUTC fields.year (fields.month - 1) fields.day fields.hour fields.minute

/-- The calendar has the date and the clock the time of day. -/
def Possible (fields : WallTime) : Prop :=
  Civil.Date.Valid ⟨fields.year, fields.month, fields.day⟩ ∧
  (0 ≤ fields.hour ∧ fields.hour < 24) ∧ (0 ≤ fields.minute ∧ fields.minute < 60)

end WallTime

namespace TimeZone

/-- The reading of the zone's clocks. -/
def clock (zone : TimeZone) (instant : Int) : Int := instant + zone.offset instant * 60000

/-- The reading, truncated to the minute. -/
def wallTime (zone : TimeZone) (instant : Int) : WallTime :=
  WallTime.ofMinutes (zone.clock instant / 60000)

/-- The zone's clocks read exactly the wall time. -/
def Reads (zone : TimeZone) (instant : Int) (fields : WallTime) : Prop :=
  zone.wallTime instant = fields ∧ zone.clock instant % 60000 = 0

instance (zone : TimeZone) (instant : Int) (fields : WallTime) :
    Decidable (zone.Reads instant fields) :=
  inferInstanceAs (Decidable (_ ∧ _))

end TimeZone

/-- The formatter shows years before the first as years of the era before. -/
def parts (instant : Int) (zone : TimeZone) : WallTime :=
  let fields := zone.wallTime instant
  { fields with year := if 1 ≤ fields.year then fields.year else 1 - fields.year }

/-- The fields between the year and the minute, with the marks after them. -/
def wallLayout : List (Nat × Char) := [(2, '-'), (2, 'T'), (2, ':')]

def isoToLocal (value : Option Int) (zone : TimeZone) : List Char :=
  match value with
  | none => []
  | some instant =>
    let fields := parts instant zone
    Nat.toDigits 10 fields.year.toNat ++ '-' ::
      (text wallLayout [fields.month.toNat, fields.day.toNat, fields.hour.toNat] ++
        pad 2 fields.minute.toNat)

/-- The numbers of a value that matches `^\d{4}-\d{2}-\d{2}T\d{2}:\d{2}$`. -/
def readWall (value : List Char) : Option WallTime :=
  match read ((4, '-') :: wallLayout) value with
  | some ([year, month, day, hour], rest) =>
    match readPad 2 rest with
    | some (minute, []) => some ⟨year, month, day, hour, minute⟩
    | _ => none
  | _ => none

/-- The next instant tried for a wall time. -/
def next (zone : TimeZone) (wall instant : Int) : Int :=
  instant + wall - (parts instant zone).utc

/-- `localToIso` with a given number of attempts. -/
def localToIsoWithin (attempts : Nat) (value : List Char) (zone : TimeZone) :
    Except RangeError (Option Int) :=
  if value = [] then .ok none
  else
    match readWall value with
    | none => .error invalidTime
    | some fields =>
      let instant := settle (next zone fields.utc) attempts fields.utc
      if isoToLocal (some instant) zone ≠ value then .error missingTime
      else .ok (some instant)

def localToIso (value : List Char) (zone : TimeZone) : Except RangeError (Option Int) :=
  localToIsoWithin 5 value zone

theorem utc_emod (fields : WallTime) : fields.utc % 60000 = 0 := by
  unfold WallTime.utc dateUTC
  simp only
  omega

/-- Fields of the first century are read as the twentieth, all others as they are. -/
theorem utc_ofMinutes {minutes : Int} (year : 100 ≤ (WallTime.ofMinutes minutes).year) :
    (WallTime.ofMinutes minutes).utc = minutes * 60000 := by
  obtain ⟨month, -⟩ := Civil.ofOrdinal_valid (minutes / 1440 + 719163)
  have day := Civil.ordinal_ofOrdinal (minutes / 1440 + 719163)
  unfold WallTime.ofMinutes at year ⊢
  unfold WallTime.utc dateUTC
  simp only at year ⊢
  generalize Civil.ofOrdinal (minutes / 1440 + 719163) = date at *
  have whole : date.year + (date.month - 1) / 12 = date.year := by omega
  have counted : (date.month - 1) % 12 + 1 = date.month := by omega
  rw [if_neg (by omega), whole, counted, day]
  omega

theorem possible_ofMinutes (minutes : Int) : (WallTime.ofMinutes minutes).Possible := by
  refine ⟨Civil.ofOrdinal_valid _, ?_, ?_⟩ <;> unfold WallTime.ofMinutes <;> simp only <;> omega

/-- A possible wall time is counted from its date and time of day. -/
theorem utc_possible {fields : WallTime} (possible : fields.Possible) (year : 100 ≤ fields.year) :
    fields.utc = (Civil.ordinal ⟨fields.year, fields.month, fields.day⟩ - 719163) * 86400000 +
      fields.hour * 3600000 + fields.minute * 60000 := by
  have month : 1 ≤ fields.month ∧ fields.month ≤ 12 := possible.1.1
  have whole : fields.year + (fields.month - 1) / 12 = fields.year := by omega
  have counted : (fields.month - 1) % 12 + 1 = fields.month := by omega
  unfold WallTime.utc dateUTC
  simp only
  rw [if_neg (by omega), whole, counted]

/-- A possible wall time is the one its minutes have. -/
theorem ofMinutes_utc {fields : WallTime} (possible : fields.Possible) (year : 100 ≤ fields.year) :
    WallTime.ofMinutes (fields.utc / 60000) = fields := by
  have date := Civil.ofOrdinal_ordinal possible.1
  rw [utc_possible possible year]
  obtain ⟨-, hour, minute⟩ := possible
  unfold WallTime.ofMinutes
  generalize Civil.ordinal ⟨fields.year, fields.month, fields.day⟩ = day at *
  have hday : ((day - 719163) * 86400000 + fields.hour * 3600000 + fields.minute * 60000) /
      60000 / 1440 + 719163 = day := by omega
  obtain ⟨y, m, d, h, minutes⟩ := fields
  simp only at *
  rw [hday, date]
  simp only [WallTime.mk.injEq, true_and]
  omega

/-- The clock reads the wall time exactly when it stands at the wall time's own
count. -/
theorem TimeZone.reads_iff {zone : TimeZone} {instant : Int} {fields : WallTime}
    (year : 100 ≤ fields.year) :
    zone.Reads instant fields ↔ fields.Possible ∧ zone.clock instant = fields.utc := by
  constructor
  · rintro ⟨rfl, whole⟩
    refine ⟨possible_ofMinutes _, ?_⟩
    unfold TimeZone.wallTime at year ⊢
    rw [utc_ofMinutes year]
    omega
  · rintro ⟨possible, same⟩
    refine ⟨?_, by rw [same, utc_emod]⟩
    unfold TimeZone.wallTime
    rw [same, ofMinutes_utc possible year]

/-- Where the clocks change at whole minutes, an instant at which the minute is
shown comes with one at which it begins. -/
theorem TimeZone.exists_reads_iff_shown {zone : TimeZone} {fields : WallTime}
    (minutes : ∀ instant, zone.offset (instant / 60000 * 60000) = zone.offset instant) :
    (∃ instant, zone.Reads instant fields) ↔ ∃ instant, zone.wallTime instant = fields := by
  constructor
  · rintro ⟨instant, shown, -⟩
    exact ⟨instant, shown⟩
  · rintro ⟨instant, rfl⟩
    refine ⟨instant / 60000 * 60000, ?_, ?_⟩
    · unfold TimeZone.wallTime TimeZone.clock
      rw [minutes]
      congr 1
      omega
    · unfold TimeZone.clock
      omega

theorem readWall_eq_some {value : List Char} {fields : WallTime}
    (h : readWall value = some fields) :
    ∃ year month day hour minute : Nat, fields = ⟨year, month, day, hour, minute⟩ ∧
      (Fits ((4, '-') :: wallLayout) [year, month, day, hour] ∧ minute < 10 ^ 2) ∧
      value = text ((4, '-') :: wallLayout) [year, month, day, hour] ++ pad 2 minute := by
  unfold readWall at h
  split at h
  · rename_i year month day hour rest found
    obtain ⟨fits, rfl⟩ := read_eq_some.mp found
    split at h
    · rename_i minute read
      obtain ⟨below, rfl⟩ := readPad_eq_some.mp read
      cases h
      exact ⟨year, month, day, hour, minute, rfl, ⟨fits, below⟩, by rw [List.append_nil]⟩
    · cases h
  · cases h

/-- The formatter's fields are numbers of the digits it shows. -/
theorem parts_bounds (instant : Int) (zone : TimeZone) :
    1 ≤ (parts instant zone).year ∧
    (1 ≤ (parts instant zone).month ∧ (parts instant zone).month ≤ 12) ∧
    (1 ≤ (parts instant zone).day ∧ (parts instant zone).day ≤ 31) ∧
    (0 ≤ (parts instant zone).hour ∧ (parts instant zone).hour < 24) ∧
    (0 ≤ (parts instant zone).minute ∧ (parts instant zone).minute < 60) := by
  obtain ⟨⟨month, day⟩, hour, minute⟩ := possible_ofMinutes (zone.clock instant / 60000)
  have length := Civil.daysInMonth_le (zone.wallTime instant).year (zone.wallTime instant).month
  refine ⟨?_, month, ⟨day.1, Int.le_trans day.2 length⟩, hour, minute⟩
  unfold parts
  simp only
  split <;> omega

/-- A four-digit value is shown exactly by its own fields. -/
theorem isoToLocal_eq_iff {value : List Char} {fields : WallTime}
    (h : readWall value = some fields) (year : 1000 ≤ fields.year) (instant : Int)
    (zone : TimeZone) : isoToLocal (some instant) zone = value ↔ parts instant zone = fields := by
  obtain ⟨y, m, d, h, minutes, rfl, ⟨⟨hy, fits⟩, below⟩, rfl⟩ := readWall_eq_some h
  simp only at year
  have spelled : Nat.toDigits 10 y = pad 4 y := toDigits_eq_pad (by omega) hy
  have digits : ∀ n, '-' ∉ Nat.toDigits 10 n := fun n mark =>
    absurd (Nat.isDigit_of_mem_toDigits (by decide) (by decide) mark) (by decide)
  have bounds := parts_bounds instant zone
  unfold isoToLocal
  simp only
  generalize parts instant zone = shown at *
  obtain ⟨y', m', d', h', minutes'⟩ := shown
  simp only [WallTime.mk.injEq, text, List.append_assoc, List.cons_append] at *
  constructor
  · intro same
    rw [← spelled] at same
    obtain ⟨front, rest⟩ := append_mark_inj (digits _) (digits _) same
    have shownFits : Fits wallLayout [m'.toNat, d'.toNat, h'.toNat] := by
      simp only [Fits, wallLayout, and_true]
      omega
    obtain ⟨middle, last⟩ := text_append_inj shownFits fits rest
    obtain ⟨minute, -⟩ := pad_append_inj (by omega) below (congrArg (· ++ []) last)
    have years := congrArg (Nat.ofDigitChars 10 · 0) front
    simp only [Nat.ofDigitChars_ten_toDigits] at years
    simp only [List.cons.injEq] at middle
    omega
  · rintro ⟨rfl, rfl, rfl, rfl, rfl⟩
    simp only [Int.toNat_natCast, spelled]

/-- Whole minutes after the first century. -/
def PastCentury (wall : Int) : Prop :=
  wall % 60000 = 0 ∧ (36164 - 719163) * 86400000 ≤ wall

/-- Whole minutes within two days of the wall time. -/
def Near (wall instant : Int) : Prop :=
  instant % 60000 = 0 ∧ wall - 172800000 ≤ instant ∧ instant ≤ wall + 172800000

/-- A change of a zone's offset. -/
structure Change where
  instant : Int
  before : Int
  after : Int

namespace Change

/-- Within two days of the wall time the zone has no other change. -/
def OnlyOne (change : Change) (zone : TimeZone) (wall : Int) : Prop :=
  ∀ instant, wall - 172800000 ≤ instant → instant ≤ wall + 172800000 →
    zone.offset instant = if instant < change.instant then change.before else change.after

/-- The clocks step over the wall time. -/
def Skips (change : Change) (wall : Int) : Prop :=
  change.instant + change.before * 60000 ≤ wall ∧ wall < change.instant + change.after * 60000

instance (change : Change) (wall : Int) : Decidable (change.Skips wall) :=
  inferInstanceAs (Decidable (_ ∧ _))

/-- Of three instants, two lie on one side of the change. -/
theorem OnlyOne.two_agree {change : Change} {zone : TimeZone} {wall x y z : Int}
    (once : change.OnlyOne zone wall) (hx : Near wall x) (hy : Near wall y) (hz : Near wall z) :
    zone.offset x = zone.offset y ∨ zone.offset x = zone.offset z ∨
      zone.offset y = zone.offset z := by
  rw [once x hx.2.1 hx.2.2, once y hy.2.1 hy.2.2, once z hz.2.1 hz.2.2]
  by_cases x < change.instant <;> by_cases y < change.instant <;>
    by_cases z < change.instant <;> simp [*]

end Change

/-- Carried months reach back into the year before at most. -/
theorem pastCentury_utc {value : List Char} {fields : WallTime}
    (h : readWall value = some fields) (year : 1000 ≤ fields.year) :
    PastCentury fields.utc := by
  refine ⟨utc_emod fields, ?_⟩
  obtain ⟨y, m, d, h, minutes, rfl, -, -⟩ := readWall_eq_some h
  simp only at year
  have month := Civil.daysBeforeMonth_mono (y + (m - 1) / 12)
    (show 1 ≤ ((m : Int) - 1) % 12 + 1 by omega) (Int.le_refl _) (by omega)
  have january : Civil.daysBeforeMonth (y + (m - 1) / 12) 1 = 0 := rfl
  have earlier := Civil.daysBeforeYear_mono (show 999 ≤ (y : Int) + (m - 1) / 12 by omega)
  have first : Civil.daysBeforeYear 999 = 364512 := by decide
  unfold WallTime.utc dateUTC Civil.ordinal
  simp only
  rw [if_neg (by omega)]
  omega

section Attempts

variable {wall instant : Int}

/-- Near a wall time of the later centuries the formatter shows the clock. -/
theorem parts_near (zone : TimeZone) (past : PastCentury wall) (near : Near wall instant) :
    parts instant zone = zone.wallTime instant ∧ 100 ≤ (zone.wallTime instant).year := by
  have bounded := zone.bounded instant
  have first : Civil.daysBeforeYear 100 = 36159 := by decide
  have year : 100 ≤ (zone.wallTime instant).year := by
    refine Civil.le_year_iff.mpr ?_
    rw [first]
    unfold TimeZone.clock
    unfold Near at near
    unfold PastCentury at past
    omega
  refine ⟨?_, year⟩
  unfold parts
  simp only
  rw [if_pos (by omega)]

/-- An attempt takes the zone's offset at the instant from the wall time. -/
theorem next_near (zone : TimeZone) (past : PastCentury wall) (near : Near wall instant) :
    next zone wall instant = wall - zone.offset instant * 60000 := by
  obtain ⟨shown, year⟩ := parts_near zone past near
  unfold next
  rw [shown]
  unfold TimeZone.wallTime at year ⊢
  rw [utc_ofMinutes year]
  obtain ⟨minute, -⟩ := near
  unfold TimeZone.clock
  omega

theorem near_sub_offset (past : PastCentury wall) (zone : TimeZone) (instant : Int) :
    Near wall (wall - zone.offset instant * 60000) := by
  have bounded := zone.bounded instant
  obtain ⟨minute, -⟩ := past
  unfold Near
  omega

theorem near_self (past : PastCentury wall) : Near wall wall := by
  obtain ⟨minute, -⟩ := past
  unfold Near
  omega

/-- An instant whose clock reads the wall time lies near it. -/
theorem near_of_clock {zone : TimeZone} (past : PastCentury wall)
    (clock : zone.clock instant = wall) : Near wall instant := by
  have near := near_sub_offset past zone instant
  unfold TimeZone.clock at clock
  have subtracted : instant = wall - zone.offset instant * 60000 := by omega
  rwa [← subtracted] at near

/-- The attempts stay near the wall time. -/
theorem near_settle (zone : TimeZone) (past : PastCentury wall) (attempts : Nat) :
    Near wall (settle (next zone wall) attempts wall) := by
  refine settle_induction (fun instant near => ?_) (near_self past) attempts
  rw [next_near zone past near]
  exact near_sub_offset past zone instant

/-- An attempt changes nothing exactly where the clock reads the wall time. -/
theorem isFixedPt_next (zone : TimeZone) (past : PastCentury wall) (near : Near wall instant) :
    IsFixedPt (next zone wall) instant ↔ zone.clock instant = wall := by
  unfold IsFixedPt TimeZone.clock
  rw [next_near zone past near]
  omega

/-- The second attempt finds an instant that reads the wall time, if any does. -/
theorem isFixedPt_two_attempts {change : Change} {zone : TimeZone} (past : PastCentury wall)
    (once : change.OnlyOne zone wall) (clock : zone.clock instant = wall) :
    IsFixedPt (next zone wall) ((next zone wall)^[2] wall) := by
  have near := near_of_clock past clock
  have fixed := (isFixedPt_next zone past near).mpr clock
  have first := next_near zone past (near_self past)
  have nearFirst := near_sub_offset past zone wall
  rw [← first] at nearFirst
  have second := next_near zone past nearFirst
  have found := next_near zone past near
  refine isFixedPt_of_agreement fixed ?_
  rcases once.two_agree (near_self past) nearFirst near with same | same | same
  · exact Or.inl (by rw [second, ← same, ← first])
  · exact Or.inr (Or.inl (by rw [← fixed.eq, found, ← same, ← first]))
  · exact Or.inr (Or.inr (by rw [← fixed.eq, found, ← same, ← second]))

end Attempts

/-- No instant reads a wall time that the calendar does not have or that the
clocks step over; every other one is read. -/
theorem exists_reads_iff {change : Change} {zone : TimeZone} {fields : WallTime}
    (past : PastCentury fields.utc) (year : 100 ≤ fields.year)
    (once : change.OnlyOne zone fields.utc) :
    (∃ instant, zone.Reads instant fields) ↔
      fields.Possible ∧ ¬ change.Skips fields.utc := by
  simp only [TimeZone.reads_iff year, exists_and_left, and_congr_right_iff]
  intro _
  generalize fields.utc = wall at *
  unfold Change.Skips
  constructor
  · rintro ⟨instant, clock⟩
    have near := near_of_clock past clock
    have offset := once instant near.2.1 near.2.2
    unfold TimeZone.clock at clock
    split at offset <;> omega
  · intro outside
    -- The offset before the change leads to an instant, or else the one after it does.
    have early := zone.bounded (wall - 172800000)
    have late := zone.bounded (wall + 172800000)
    have atStart := once (wall - 172800000) (Int.le_refl _) (by omega)
    have atEnd := once (wall + 172800000) (by omega) (Int.le_refl _)
    by_cases side : wall - 172800000 < change.instant ∧
        wall - change.before * 60000 < change.instant
    · rw [if_pos side.1] at atStart
      refine ⟨wall - change.before * 60000, ?_⟩
      have offset := once (wall - change.before * 60000) (by omega) (by omega)
      rw [if_pos side.2] at offset
      unfold TimeZone.clock
      omega
    · have realised : ¬ wall + 172800000 < change.instant := by
        split at atStart <;> omega
      rw [if_neg realised] at atEnd
      have later : ¬ wall - change.after * 60000 < change.instant := by omega
      refine ⟨wall - change.after * 60000, ?_⟩
      have offset := once (wall - change.after * 60000) (by omega) (by omega)
      rw [if_neg later] at offset
      unfold TimeZone.clock
      omega

/-- The conversion accepts the instant that the attempts leave when its clock
reads the wall time. -/
theorem localToIsoWithin_eq {value : List Char} {fields : WallTime}
    (h : readWall value = some fields) (year : 1000 ≤ fields.year) (attempts : Nat)
    (zone : TimeZone) {instant : Int}
    (left : settle (next zone fields.utc) attempts fields.utc = instant) :
    (zone.Reads instant fields ∧ localToIsoWithin attempts value zone = .ok (some instant)) ∨
    (¬ zone.Reads instant fields ∧ localToIsoWithin attempts value zone = .error missingTime) := by
  have past := pastCentury_utc h year
  have near : Near fields.utc instant := left ▸ near_settle zone past attempts
  have filled : value ≠ [] := by
    rintro rfl
    cases h
  have accepts : isoToLocal (some instant) zone = value ↔ zone.Reads instant fields := by
    rw [isoToLocal_eq_iff h year, (parts_near zone past near).1]
    unfold TimeZone.Reads TimeZone.clock
    have minute := near.1
    exact ⟨fun same => ⟨same, by omega⟩, And.left⟩
  unfold localToIsoWithin
  rw [if_neg filled, h]
  simp only [left]
  by_cases reads : zone.Reads instant fields
  · exact Or.inl ⟨reads, if_neg (not_not_intro (accepts.mpr reads))⟩
  · exact Or.inr ⟨reads, if_pos (mt accepts.mp reads)⟩

/-- From the second attempt on the result is the same, and it is an instant that
reads the wall time if there is one. -/
theorem localToIsoWithin_spec {change : Change} {value : List Char} {fields : WallTime}
    {zone : TimeZone} (h : readWall value = some fields) (year : 1000 ≤ fields.year)
    (once : change.OnlyOne zone fields.utc) :
    (∃ instant, zone.Reads instant fields ∧
      ∀ attempts, 2 ≤ attempts → localToIsoWithin attempts value zone = .ok (some instant)) ∨
    ((∀ instant, ¬ zone.Reads instant fields) ∧
      ∀ attempts, localToIsoWithin attempts value zone = .error missingTime) := by
  have past := pastCentury_utc h year
  by_cases found : ∃ instant, zone.Reads instant fields
  · obtain ⟨instant, reads⟩ := found
    obtain ⟨possible, clock⟩ := (TimeZone.reads_iff (by omega)).mp reads
    have fixed := isFixedPt_two_attempts past once clock
    have left : ∀ attempts, 2 ≤ attempts → settle (next zone fields.utc) attempts fields.utc =
        (next zone fields.utc)^[2] fields.utc := fun _ enough => settle_eq_of_fixed fixed enough
    have near := near_settle zone past 2
    rw [left 2 (Nat.le_refl 2)] at near
    have settled := (TimeZone.reads_iff (by omega)).mpr
      ⟨possible, (isFixedPt_next zone past near).mp fixed⟩
    refine Or.inl ⟨_, settled, fun attempts enough => ?_⟩
    rcases localToIsoWithin_eq h year attempts zone (left attempts enough) with
      ⟨-, ok⟩ | ⟨refused, -⟩
    · exact ok
    · exact absurd settled refused
  · refine Or.inr ⟨fun instant reads => found ⟨instant, reads⟩, fun attempts => ?_⟩
    rcases localToIsoWithin_eq h year attempts zone rfl with ⟨reads, -⟩ | ⟨-, error⟩
    · exact absurd ⟨_, reads⟩ found
    · exact error

/-- The conversion of a wall time around which the zone has at most one change.
It returns an instant that reads the wall time if there is one and throws if there
is none, which is the case for the wall times that the calendar does not have and
for the skipped ones; more than five attempts would give the same result. -/
theorem localToIso_exact {change : Change} {value : List Char} {fields : WallTime}
    {zone : TimeZone} (h : readWall value = some fields) (year : 1000 ≤ fields.year)
    (once : change.OnlyOne zone fields.utc) :
    ((∃ instant, zone.Reads instant fields) →
      ∃ instant, localToIso value zone = .ok (some instant) ∧ zone.Reads instant fields) ∧
    ((∃ error, localToIso value zone = .error error) ↔ ¬ ∃ instant, zone.Reads instant fields) ∧
    ((∃ instant, zone.Reads instant fields) ↔ fields.Possible ∧ ¬ change.Skips fields.utc) ∧
    ∀ attempts, 5 ≤ attempts → localToIsoWithin attempts value zone = localToIso value zone := by
  have readable := exists_reads_iff (pastCentury_utc h year) (by omega) once
  rcases localToIsoWithin_spec h year once with ⟨instant, reads, ok⟩ | ⟨none, error⟩
  · have result : localToIso value zone = .ok (some instant) := ok 5 (by decide)
    refine ⟨fun _ => ⟨instant, result, reads⟩, ?_, readable, fun attempts enough => ?_⟩
    · rw [result]
      exact ⟨nofun, fun missing => absurd ⟨instant, reads⟩ missing⟩
    · rw [ok attempts (by omega), result]
  · have result : localToIso value zone = .error missingTime := error 5
    refine ⟨fun ⟨instant, reads⟩ => absurd reads (none instant), ?_, readable,
      fun attempts _ => ?_⟩
    · rw [result]
      exact ⟨fun _ ⟨instant, reads⟩ => none instant reads, fun _ => ⟨_, rfl⟩⟩
    · rw [error attempts, result]

theorem berlinOffset_bounded (instant : Int) :
    -2880 ≤ (if instant < 1774746000000 then 60 else (120 : Int)) ∧
      (if instant < 1774746000000 then 60 else (120 : Int)) ≤ 2880 := by
  split <;> decide

/-- Berlin around the night of 2026-03-29, when its clocks go forward at one
o'clock UTC. -/
def berlin : TimeZone where
  offset instant := if instant < 1774746000000 then 60 else 120
  bounded := berlinOffset_bounded

def berlinChange : Change := ⟨1774746000000, 60, 120⟩

theorem localToIso_exact_berlin :
    (∃ instant, localToIso "2026-03-29T03:30".toList berlin = .ok (some instant) ∧
      berlin.Reads instant ⟨2026, 3, 29, 3, 30⟩) ∧
    ∃ error, localToIso "2026-03-29T02:30".toList berlin = .error error := by
  obtain ⟨returns, -⟩ := @localToIso_exact berlinChange "2026-03-29T03:30".toList
    ⟨2026, 3, 29, 3, 30⟩ berlin (by decide +kernel) (by decide) fun _ _ _ => rfl
  obtain ⟨-, throws, reads, -⟩ := @localToIso_exact berlinChange "2026-03-29T02:30".toList
    ⟨2026, 3, 29, 2, 30⟩ berlin (by decide +kernel) (by decide) fun _ _ _ => rfl
  refine ⟨returns ⟨1774747800000, by decide +kernel⟩, throws.mpr fun found => ?_⟩
  exact (reads.mp found).2 (by decide +kernel)

end SmartPlanner.PlannerTime
