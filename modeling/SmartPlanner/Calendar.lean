import Mathlib.Order.Basic

/-!
Instants, calendar dates and the conversion between them. An aware `datetime`
is the `Int` of its UTC microseconds since the Unix epoch; a `date` is the
`Int` of its proleptic ordinal. `ZoneInfo` is a parameter: maps between the
local calendar and UTC, with no law assumed beyond whole-second offsets.

`timedelta / MINUTE` is a float in the source. Its rounding error is below one
microsecond for quotients under 2^28 minutes, and every use clamps quotients
beyond the horizon, so integer division gives the same results.
-/

namespace SmartPlanner

/-- Identifiers are 128-bit numbers; `str(uuid)` orders them numerically. -/
abbrev UUID := Nat

/-- `MINUTE = timedelta(minutes=1)`. -/
def minute : Int := 60000000

/-- `int(delta / MINUTE)`, truncating toward zero. -/
def truncMinutes (delta : Int) : Int := delta.tdiv minute

/-- `floor(delta / MINUTE)`. -/
def floorMinutes (delta : Int) : Int := delta / minute

/-- `ceil(delta / MINUTE)`. -/
def ceilMinutes (delta : Int) : Int := -(-delta / minute)

/-- The `second` field of a UTC datetime. -/
def secondOf (t : Int) : Int := t / 1000000 % 60

/-- A loaded time zone. `midnight day` is the UTC second of
`datetime.combine(day, time(), zone)`; `localDate` and `localHour` read
`instant.astimezone(zone)`. -/
structure Zone where
  midnight : Int → Int
  localDate : Int → Int
  localHour : Int → Int

/-- `datetime.combine(day, time(), zone).astimezone(timezone.utc)`. -/
def Zone.dayStart (zone : Zone) (day : Int) : Int := zone.midnight day * 1000000

/-- `ZoneInfo("UTC")`; 719163 is the ordinal of 1970-01-01. -/
def Zone.utc : Zone where
  midnight day := (day - 719163) * 86400
  localDate t := t / 86400000000 + 719163
  localHour t := t / 3600000000 % 24

/-- `2000 <= value.year <= 2101`. -/
def SupportedYear (t : Int) : Prop :=
  946684800000000 ≤ t ∧ t < 4165516800000000

instance (t : Int) : Decidable (SupportedYear t) :=
  inferInstanceAs (Decidable (_ ∧ _))

theorem le_floorMinutes {i delta : Int} : i ≤ floorMinutes delta ↔ i * minute ≤ delta := by
  unfold floorMinutes minute
  omega

theorem ceilMinutes_le {i delta : Int} : ceilMinutes delta ≤ i ↔ delta ≤ i * minute := by
  unfold ceilMinutes minute
  omega

/-- On whole minutes the truncating quotient is exact. -/
theorem truncMinutes_mul {delta : Int} (whole : delta % minute = 0) :
    truncMinutes delta * minute = delta := by
  unfold truncMinutes
  exact Int.tdiv_mul_cancel (Int.dvd_of_emod_eq_zero whole)

theorem truncMinutes_mul_minute (k : Int) : truncMinutes (k * minute) = k := by
  unfold truncMinutes
  exact Int.mul_tdiv_cancel k (by decide)

/-- Local midnight is a whole second, so a zero `second` field makes it a whole
minute. -/
theorem dayStart_wholeMinute {zone : Zone} {day : Int}
    (h : secondOf (zone.dayStart day) = 0) : zone.dayStart day % minute = 0 := by
  unfold secondOf Zone.dayStart at h
  unfold Zone.dayStart minute
  omega

end SmartPlanner
