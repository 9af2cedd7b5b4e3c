import SmartPlanner.Calendar
import SmartPlanner.Errors
import SmartPlanner.Library.Civil
import SmartPlanner.Library.Decimal
import SmartPlanner.Library.Outcome
import Mathlib.Data.Char
import Mathlib.Data.List.Lex

/-!
The timestamps of `sqlite_store.py` and `sqlite_schema.sql`. Columns hold them as
texts, which SQLite compares byte by byte; all their characters are ASCII, so a
text is a list of characters. The application writes six fractional digits and
the schema defaults write three.
-/

namespace SmartPlanner

open Decimal Outcome

/-- The years 1 to 9999, as a `datetime` in UTC can hold them. -/
def InYears (t : Int) : Prop :=
  -62135596800000000 ≤ t ∧ t < 253402300800000000

instance (t : Int) : Decidable (InYears t) :=
  inferInstanceAs (Decidable (_ ∧ _))

/-- The UTC date of an instant; 719163 is the ordinal of 1970-01-01. -/
def utcDate (t : Int) : Civil.Date := Civil.ofOrdinal (t / 86400000000 + 719163)

/-- The fields of a UTC instant, from the year down to the second. -/
def clockFields (t : Int) : List Nat :=
  [(utcDate t).year.toNat, (utcDate t).month.toNat, (utcDate t).day.toNat,
    (t / 3600000000 % 24).toNat, (t / 60000000 % 60).toNat, (secondOf t).toNat]

/-- `%Y-%m-%dT%H:%M:%S.` -/
def clockLayout : List (Nat × Char) :=
  [(4, '-'), (2, '-'), (2, 'T'), (2, ':'), (2, ':'), (2, '.')]

def utcSuffix : List Char := ['+', '0', '0', ':', '0', '0']

/-- `value.isoformat(timespec="microseconds")` of a UTC datetime. -/
def isoformat (t : Int) : List Char :=
  text clockLayout (clockFields t) ++ (pad 6 (t % 1000000).toNat ++ utcSuffix)

/-- `strftime('%Y-%m-%dT%H:%M:%f+00:00', 'now')`, whose clock ticks in
milliseconds. -/
def strftimeNow (t : Int) : List Char :=
  text clockLayout (clockFields t) ++ (pad 3 (t % 1000000 / 1000).toNat ++ utcSuffix)

/-- `encode` of `sqlite_store.py` on a datetime that is in UTC: its text, or the
`OverflowError` of a UTC date outside the years. -/
def encodeUtc (t : Int) : Except PyError (List Char) :=
  if InYears t then .ok (isoformat t) else .error .overflow

/-- A timestamp that a column holds or a query compares with: a value that
`encode` or `timestamp` wrote, or the default of a column. -/
inductive StoredTime
  | encoded (t : Int) (years : InYears t)
  | defaulted (t : Int) (years : InYears t) (millis : t % 1000 = 0)

namespace StoredTime

def instant : StoredTime → Int
  | encoded t _ | defaulted t _ _ => t

def text : StoredTime → List Char
  | encoded t _ => isoformat t
  | defaulted t _ _ => strftimeNow t

end StoredTime

theorem utcDate_valid (t : Int) : (utcDate t).Valid := Civil.ofOrdinal_valid _

/-- The supported instants are those whose UTC year has one to four digits. -/
theorem inYears_iff {t : Int} :
    InYears t ↔ 1 ≤ (utcDate t).year ∧ (utcDate t).year ≤ 9999 := by
  have first : Civil.daysBeforeYear 1 = 0 := by decide
  have last : Civil.daysBeforeYear (9999 + 1) = 3652059 := by decide
  unfold utcDate
  rw [Civil.year_bounds, first, last]
  unfold InYears
  omega

theorem encodeUtc_years {t : Int} (h : InYears t) : encodeUtc t = .ok (isoformat t) := if_pos h

theorem encodeUtc_overflow {t : Int} (h : ¬ InYears t) : encodeUtc t = .error .overflow :=
  if_neg h

theorem mapM_encodeUtc {ts : List Int} (h : ∀ t ∈ ts, InYears t) :
    ts.mapM encodeUtc = .ok (ts.map isoformat) := by
  induction ts with
  | nil => rfl
  | cons t ts ih =>
    rw [List.forall_mem_cons] at h
    rw [List.mapM_cons, encodeUtc_years h.1, ok_bind, ih h.2]
    rfl

theorem mapM_encodeUtc_overflow {ts : List Int} (h : ¬ ∀ t ∈ ts, InYears t) :
    ts.mapM encodeUtc = .error .overflow := by
  induction ts with
  | nil => simp at h
  | cons t ts ih =>
    rw [List.forall_mem_cons] at h
    rw [List.mapM_cons]
    by_cases first : InYears t
    · rw [encodeUtc_years first, ok_bind, ih fun rest => h ⟨first, rest⟩]
      rfl
    · rw [encodeUtc_overflow first]
      rfl

theorem mapM_encodeUtc_ok {ts : List Int} {texts : List (List Char)}
    (h : ts.mapM encodeUtc = .ok texts) : ∀ t ∈ ts, InYears t := by
  by_contra outside
  rw [mapM_encodeUtc_overflow outside] at h
  contradiction

theorem clockFields_fit {t : Int} (years : InYears t) : Fits clockLayout (clockFields t) := by
  obtain ⟨-, year⟩ := inYears_iff.mp years
  obtain ⟨month, day⟩ := utcDate_valid t
  have := Civil.daysInMonth_le (utcDate t).year (utcDate t).month
  simp only [Fits, clockLayout, clockFields, secondOf, and_true]
  generalize utcDate t = date at *
  omega

/-- Within a day the hours, minutes and seconds order the instants, and before
them the dates do. -/
theorem clockFields_lt {s t : Int} (hs : InYears s) (h : s / 1000000 < t / 1000000) :
    clockFields s < clockFields t := by
  by_cases same : s / 86400000000 = t / 86400000000
  · have date : utcDate s = utcDate t := by
      unfold utcDate
      rw [same]
    simp only [clockFields, List.cons_lt_cons_iff, secondOf, date, Nat.lt_irrefl, true_and,
      false_or]
    by_cases hour : s / 3600000000 = t / 3600000000
    · by_cases minute : s / 60000000 = t / 60000000
      · exact Or.inr ⟨by rw [hour], Or.inr ⟨by rw [minute], Or.inl (by omega)⟩⟩
      · exact Or.inr ⟨by rw [hour], Or.inl (by omega)⟩
    · exact Or.inl (by omega)
  · have before : (utcDate s).Before (utcDate t) := Civil.ofOrdinal_before (by omega)
    obtain ⟨first, -⟩ := inYears_iff.mp hs
    exact before.numbers_append_lt (utcDate_valid s) (by omega) _ _

theorem clockFields_congr {s t : Int} (h : s / 1000000 = t / 1000000) :
    clockFields s = clockFields t := by
  have day : s / 86400000000 = t / 86400000000 := by omega
  have hour : s / 3600000000 = t / 3600000000 := by omega
  have minute : s / 60000000 = t / 60000000 := by omega
  unfold clockFields utcDate secondOf
  rw [day, hour, minute, h]

/-- Texts of one second are ordered by what follows the second, and texts of
different seconds by the seconds. -/
theorem clockText_append_lt {s t : Int} (hs : InYears s) (ht : InYears t) {xs ys : List Char}
    (h : s < t) (fraction : s / 1000000 = t / 1000000 → xs < ys) :
    text clockLayout (clockFields s) ++ xs < text clockLayout (clockFields t) ++ ys := by
  by_cases same : s / 1000000 = t / 1000000
  · rw [clockFields_congr same]
    exact List.append_left_lt (fraction same)
  · exact text_append_lt (clockFields_fit hs) (clockFields_fit ht)
      (clockFields_lt hs (by omega)) xs ys

/-- The first three of six digits are the milliseconds. -/
theorem pad_micros {n : Nat} (h : n < 1000000) : pad 6 n = pad 3 (n / 1000) ++ pad 3 (n % 1000) :=
  @pad_add 3 3 n h

namespace StoredTime

/-- An earlier instant has a smaller text, in whichever formats the two are. -/
theorem text_lt {a b : StoredTime} (h : a.instant < b.instant) : a.text < b.text := by
  cases a with
  | encoded s hs =>
    cases b with
    | encoded t ht =>
      refine clockText_append_lt hs ht h fun same => ?_
      change s < t at h
      exact pad_append_lt (by omega) (by omega) _ _
    | defaulted t ht millis =>
      refine clockText_append_lt hs ht h fun same => ?_
      change s < t at h
      rw [pad_micros (by omega), List.append_assoc]
      exact pad_append_lt (by omega) (by omega) _ _
  | defaulted s hs whole =>
    cases b with
    | encoded t ht =>
      refine clockText_append_lt hs ht h fun same => ?_
      change s < t at h
      rw [pad_micros (by omega), List.append_assoc]
      by_cases millis : (s % 1000000 / 1000).toNat = (t % 1000000).toNat / 1000
      · -- The shorter fraction ends in `+`, which is below the digits.
        rw [millis]
        exact List.append_left_lt (cons_lt_pad_append (by decide) (by omega) _ _)
      · exact pad_append_lt (by omega) (by omega) _ _
    | defaulted t ht millis =>
      refine clockText_append_lt hs ht h fun same => ?_
      change s < t at h
      exact pad_append_lt (by omega) (by omega) _ _

/-- Not one instant in two formats. -/
def NoTie (a b : StoredTime) : Prop := a.instant = b.instant → a.text = b.text

theorem text_lt_iff {a b : StoredTime} (tie : a.NoTie b) :
    a.text < b.text ↔ a.instant < b.instant := by
  refine ⟨fun h => ?_, text_lt⟩
  rcases Int.lt_trichotomy a.instant b.instant with less | same | greater
  · exact less
  · rw [tie same] at h
    exact absurd h (List.lt_irrefl _)
  · exact absurd h (List.lt_asymm (text_lt greater))

/-- What the application wrote never ties. -/
theorem encoded_noTie {s t : Int} (hs : InYears s) (ht : InYears t) :
    (encoded s hs).NoTie (encoded t ht) := by
  rintro (rfl : s = t)
  rfl

end StoredTime

/-! The comparisons of the queries. SQLite makes them over texts, PostgreSQL over
the instants of a `timestamptz`. -/

section Queries
variable {α : Type} [LT α] [DecidableLT α]

/-- `start_at < horizon.end AND end_at > horizon.start` of
`ScheduleRepository.create`. -/
def overlapsHorizon (startAt endAt start stop : α) : Bool :=
  startAt < stop && start < endAt

/-- The filter of `FixedEventRepository.list`, where an end may be `NULL`. -/
def inRange (startsAt endsAt : α) (start stop : Option α) : Bool :=
  start.all (· < endsAt) && stop.all (startsAt < ·)

/-- `expires_at > now()` of `session_user`; `create_session` deletes the others. -/
def sessionLive (expiresAt now : α) : Bool := now < expiresAt

/-- `GREATEST(stamp, updated_at)`, which is Python's `max` in SQLite: the first
of the largest. -/
def greatestOf (stamp updatedAt : α) : α := if stamp < updatedAt then updatedAt else stamp

end Queries

theorem greatestOf_eq (stamp updatedAt : Int) :
    greatestOf stamp updatedAt = max stamp updatedAt := by
  unfold greatestOf
  split <;> omega

namespace StoredTime

theorem decide_text_lt {a b : StoredTime} (tie : a.NoTie b) :
    decide (a.text < b.text) = decide (a.instant < b.instant) :=
  decide_eq_decide.mpr (text_lt_iff tie)

theorem all_text_lt {start : Option StoredTime} {b : StoredTime}
    (tie : ∀ a ∈ start, a.NoTie b) :
    (start.map text).all (· < b.text) = (start.map instant).all (· < b.instant) := by
  cases start with
  | none => rfl
  | some a => exact decide_text_lt (tie a rfl)

theorem all_lt_text {stop : Option StoredTime} {a : StoredTime}
    (tie : ∀ b ∈ stop, a.NoTie b) :
    (stop.map text).all (a.text < ·) = (stop.map instant).all (a.instant < ·) := by
  cases stop with
  | none => rfl
  | some b => exact decide_text_lt (tie b rfl)

/-- The larger text belongs to one of the two, and to none that is earlier. -/
theorem greatestOf_text (a b : StoredTime) :
    ∃ c, (c = a ∨ c = b) ∧ greatestOf a.text b.text = c.text ∧
      c.instant = greatestOf a.instant b.instant := by
  unfold greatestOf
  by_cases less : a.text < b.text
  · have : ¬ b.instant < a.instant := fun h => List.lt_asymm less (text_lt h)
    refine ⟨b, Or.inr rfl, if_pos less, ?_⟩
    split <;> omega
  · have : ¬ a.instant < b.instant := fun h => less (text_lt h)
    exact ⟨a, Or.inl rfl, if_neg less, (if_neg this).symm⟩

end StoredTime

/-- Texts are compared as the instants they stand for: every earlier instant has
the smaller text, and each comparison of the queries decides as on the instants,
up to ties of one instant in two formats. -/
theorem storedTimes_compare :
    (∀ a b : StoredTime, a.instant < b.instant → a.text < b.text) ∧
    (∀ startAt endAt start stop : StoredTime, startAt.NoTie stop → start.NoTie endAt →
      overlapsHorizon startAt.text endAt.text start.text stop.text =
        overlapsHorizon startAt.instant endAt.instant start.instant stop.instant) ∧
    (∀ (startsAt endsAt : StoredTime) (start stop : Option StoredTime),
      (∀ a ∈ start, a.NoTie endsAt) → (∀ b ∈ stop, startsAt.NoTie b) →
      inRange startsAt.text endsAt.text (start.map (·.text)) (stop.map (·.text)) =
        inRange startsAt.instant endsAt.instant (start.map (·.instant))
          (stop.map (·.instant))) ∧
    (∀ expiresAt now : StoredTime, now.NoTie expiresAt →
      sessionLive expiresAt.text now.text = sessionLive expiresAt.instant now.instant) ∧
    (∀ stamp updatedAt : StoredTime, ∃ c, (c = stamp ∨ c = updatedAt) ∧
      greatestOf stamp.text updatedAt.text = c.text ∧
      c.instant = max stamp.instant updatedAt.instant) := by
  refine ⟨fun a b => StoredTime.text_lt, ?_, ?_, ?_, ?_⟩
  · intro startAt endAt start stop hstart hstop
    unfold overlapsHorizon
    rw [StoredTime.decide_text_lt hstart, StoredTime.decide_text_lt hstop]
  · intro startsAt endsAt start stop hstart hstop
    unfold inRange
    rw [StoredTime.all_text_lt hstart, StoredTime.all_lt_text hstop]
  · intro expiresAt now tie
    exact StoredTime.decide_text_lt tie
  · intro stamp updatedAt
    rw [← greatestOf_eq]
    exact StoredTime.greatestOf_text stamp updatedAt

example : isoformat (-1) = "1969-12-31T23:59:59.999999+00:00".toList ∧
    strftimeNow 951782400005000 = "2000-02-29T00:00:00.005+00:00".toList := by decide +kernel

/-- Texts of encoded values compare as their instants. -/
theorem isoformat_lt {s t : Int} (hs : InYears s) (ht : InYears t) :
    isoformat s < isoformat t ↔ s < t :=
  StoredTime.text_lt_iff (StoredTime.encoded_noTie hs ht)

/-- A horizon lies in the years that a text can hold. -/
theorem SupportedYear.inYears {t : Int} (h : SupportedYear t) : InYears t := by
  unfold SupportedYear at h
  unfold InYears
  omega

end SmartPlanner
