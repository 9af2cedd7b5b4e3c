import SmartPlanner.Availability

/-!
The edit forms of `app.js`. A form is filled with the wall-clock readings of the
stored instants and sends what its fields say, so an instant that the readings do
not determine moves when a form is saved as it was opened.
-/

namespace SmartPlanner.PlannerTime

open Decimal Function Outcome Settling

/-- The times and the lock of a block, as the browser holds them. -/
structure BlockTimes where
  start : Option Int
  stop : Option Int
  locked : Bool
deriving DecidableEq, Repr

/-- The fields of `block-form`. -/
structure BlockForm where
  start : List Char
  stop : List Char
  locked : Bool
deriving DecidableEq, Repr

def loadBlockIntoForm (block : BlockTimes) (zone : TimeZone) : BlockForm :=
  ⟨isoToLocal block.start zone, isoToLocal block.stop zone, block.locked⟩

def lockApart : String :=
  "قفل را در یک تغییر جدا باز یا بسته کنید، سپس زمان را تغییر دهید."

/-- `block-form.onsubmit`, up to the request: the block that is sent, or the
message that is shown instead. -/
def submitBlock (old : BlockTimes) (form : BlockForm) (zone : TimeZone) :
    Except String BlockTimes := do
  let start ← (localToIso form.start zone).mapError RangeError.message
  let stop ← (localToIso form.stop zone).mapError RangeError.message
  raiseIf ((old.start ≠ start ∨ old.stop ≠ stop) ∧ old.locked ≠ form.locked) lockApart
  return ⟨start, stop, form.locked⟩

namespace Change

/-- The clocks read the wall time twice. -/
def Repeats (change : Change) (wall : Int) : Prop :=
  change.instant + change.after * 60000 ≤ wall ∧ wall < change.instant + change.before * 60000

instance (change : Change) (wall : Int) : Decidable (change.Repeats wall) :=
  inferInstanceAs (Decidable (_ ∧ _))

/-- Of the instants with the reading of this one, the conversion finds this one:
of a repeated reading, the one on the side of the change on which the reading
lies as UTC. -/
def Finds (change : Change) (zone : TimeZone) (instant : Int) : Prop :=
  change.Repeats (zone.clock instant) →
    (change.instant ≤ instant ↔ change.instant ≤ zone.clock instant)

instance (change : Change) (zone : TimeZone) (instant : Int) :
    Decidable (change.Finds zone instant) :=
  inferInstanceAs (Decidable (_ → _))

end Change

section Reading

variable {zone : TimeZone} {change : Change} {instant : Int}

/-- The text of a four-digit reading is read as its fields. -/
theorem readWall_isoToLocal (first : 1000 ≤ (zone.wallTime instant).year)
    (last : (zone.wallTime instant).year ≤ 9999) :
    readWall (isoToLocal (some instant) zone) = some (zone.wallTime instant) := by
  have shown : parts instant zone = zone.wallTime instant := by
    unfold parts
    simp only
    rw [if_pos (by omega)]
  obtain ⟨-, month, day, hour, minute⟩ := parts_bounds instant zone
  unfold isoToLocal
  simp only
  rw [shown] at month day hour minute ⊢
  generalize zone.wallTime instant = fields at *
  obtain ⟨y, m, d, h, minutes⟩ := fields
  simp only at *
  have spelled : Nat.toDigits 10 y.toNat = pad 4 y.toNat :=
    toDigits_eq_pad (by omega) (by omega)
  have fits : Fits ((4, '-') :: wallLayout) [y.toNat, m.toNat, d.toNat, h.toNat] := by
    simp only [Fits, wallLayout, and_true]
    omega
  have front : read ((4, '-') :: wallLayout) (pad 4 y.toNat ++ '-' ::
      (text wallLayout [m.toNat, d.toNat, h.toNat] ++ pad 2 minutes.toNat)) =
        some ([y.toNat, m.toNat, d.toNat, h.toNat], pad 2 minutes.toNat) :=
    read_eq_some.mpr ⟨fits, by simp [text]⟩
  have back : readPad 2 (pad 2 minutes.toNat) = some (minutes.toNat, []) :=
    readPad_eq_some.mpr ⟨by omega, (List.append_nil _).symm⟩
  unfold readWall
  rw [spelled, front]
  simp only
  rw [back]
  simp only [Option.some.injEq, WallTime.mk.injEq]
  omega

/-- The instant of a reading that the attempts find, of the two that a repeated
reading has. -/
theorem attempts_eq_iff {wall : Int} (past : PastCentury wall) (once : change.OnlyOne zone wall)
    (clock : zone.clock instant = wall)
    (found : zone.clock ((next zone wall)^[2] wall) = wall) :
    (next zone wall)^[2] wall = instant ↔ change.Finds zone instant := by
  have near := near_of_clock past clock
  have near' := near_of_clock past found
  have nearFirst := near_sub_offset past zone wall
  have second := second_attempt zone past
  have self := once wall (by omega) (by omega)
  have again := once _ nearFirst.2.1 nearFirst.2.2
  have here := once instant near.2.1 near.2.2
  have there := once _ near'.2.1 near'.2.2
  unfold Change.Finds Change.Repeats
  rw [clock]
  generalize (next zone wall)^[2] wall = saved at *
  unfold TimeZone.clock at clock found
  split at self <;> split at again <;> split at here <;> split at there <;> omega

/-- What a form sends back for an instant that its field was filled with. -/
theorem localToIso_isoToLocal
    (minutes : ∀ instant, zone.offset (instant / 60000 * 60000) = zone.offset instant)
    (year : 1000 ≤ (zone.wallTime instant).year ∧ (zone.wallTime instant).year ≤ 9999)
    (once : change.OnlyOne zone (zone.clock (instant / 60000 * 60000))) :
    ∃ saved, localToIso (isoToLocal (some instant) zone) zone = .ok (some saved) ∧
      zone.Reads saved (zone.wallTime instant) ∧
      localToIso (isoToLocal (some saved) zone) zone = .ok (some saved) ∧
      (saved = instant ↔ instant % 60000 = 0 ∧ change.Finds zone instant) := by
  have read := readWall_isoToLocal year.1 year.2
  have past := pastCentury_utc read year.1
  -- The reading is that of the minute the instant lies in.
  have counted : (zone.wallTime instant).utc = zone.clock (instant / 60000 * 60000) := by
    have century : 100 ≤ (zone.wallTime instant).year := by omega
    unfold TimeZone.wallTime TimeZone.clock at century ⊢
    rw [utc_ofMinutes century, minutes]
    omega
  rw [← counted] at once
  have begins : zone.Reads (instant / 60000 * 60000) (zone.wallTime instant) :=
    (TimeZone.reads_iff (by omega)).mpr ⟨possible_ofMinutes _, counted.symm⟩
  obtain ⟨accepted, -, -, -⟩ := localToIso_exact read year.1 once
  obtain ⟨saved, hsaved, reads⟩ := accepted ⟨_, begins⟩
  obtain ⟨found, -⟩ := localToIso_ok read year.1 once hsaved
  rw [Option.some.injEq] at found
  have clock := ((TimeZone.reads_iff (by omega)).mp reads).2
  have chosen := attempts_eq_iff past once counted.symm (found ▸ clock)
  rw [← found] at chosen
  have shown : isoToLocal (some saved) zone = isoToLocal (some instant) zone := by
    have same : zone.wallTime saved = zone.wallTime instant := reads.1
    unfold isoToLocal parts
    simp only [same]
  refine ⟨saved, hsaved, reads, by rw [shown, hsaved], ?_⟩
  have whole : saved % 60000 = 0 := by
    have near := near_of_clock past clock
    exact near.1
  constructor
  · rintro rfl
    have same : saved / 60000 * 60000 = saved := by omega
    rw [same] at chosen
    exact ⟨whole, chosen.mp rfl⟩
  · rintro ⟨here, finds⟩
    have same : instant / 60000 * 60000 = instant := by omega
    rw [same] at chosen
    exact chosen.mpr finds

end Reading

/-- An instant on the minute whose reading has four digits in the year, with at
most one change of the zone around it. -/
structure Change.Around (change : Change) (zone : TimeZone) (instant : Int) : Prop where
  minute : instant % 60000 = 0
  year : 1000 ≤ (zone.wallTime instant).year ∧ (zone.wallTime instant).year ≤ 9999
  once : change.OnlyOne zone (zone.clock instant)

/-- A field filled with such an instant sends one, the same if the conversion
finds it. -/
theorem Change.Around.sent {zone : TimeZone} {change : Change} {instant : Int}
    (minutes : ∀ instant, zone.offset (instant / 60000 * 60000) = zone.offset instant)
    (around : change.Around zone instant) :
    ∃ saved, localToIso (isoToLocal (some instant) zone) zone = .ok (some saved) ∧
      (saved = instant ↔ change.Finds zone instant) := by
  obtain ⟨minute, year, once⟩ := around
  have same : instant / 60000 * 60000 = instant := by omega
  obtain ⟨saved, sent, -, -, kept⟩ :=
    localToIso_isoToLocal minutes year (show change.OnlyOne zone _ by rw [same]; exact once)
  exact ⟨saved, sent, kept.trans (and_iff_right minute)⟩

/-- The edit forms, in a zone that changes its clocks at whole minutes, for times in
four-digit years with at most one change within two days of each. A field that is
sent as it was filled names an instant with the reading of the stored one, which
further saves keep; it is the stored one exactly when that lies on the minute and the
conversion finds it. So the lock of a block alone is accepted exactly when the
conversion finds both its times, and is refused as a change of time and lock together
otherwise. -/
theorem editForms_keep_iff (zone : TimeZone)
    (minutes : ∀ instant, zone.offset (instant / 60000 * 60000) = zone.offset instant) :
    (∀ (instant : Int) (change : Change),
      1000 ≤ (zone.wallTime instant).year ∧ (zone.wallTime instant).year ≤ 9999 →
      change.OnlyOne zone (zone.clock (instant / 60000 * 60000)) →
      ∃ saved, localToIso (isoToLocal (some instant) zone) zone = .ok (some saved) ∧
        zone.Reads saved (zone.wallTime instant) ∧
        localToIso (isoToLocal (some saved) zone) zone = .ok (some saved) ∧
        (saved = instant ↔ instant % 60000 = 0 ∧ change.Finds zone instant)) ∧
    ∀ (start stop : Int) (opens closes : Change) (locked toggled : Bool),
      opens.Around zone start → closes.Around zone stop →
      let block : BlockTimes := ⟨some start, some stop, locked⟩
      let form : BlockForm := { loadBlockIntoForm block zone with locked := toggled }
      let kept := opens.Finds zone start ∧ closes.Finds zone stop
      (submitBlock block form zone = .ok { block with locked := toggled } ↔ kept) ∧
      (submitBlock block form zone = .error lockApart ↔ ¬ kept ∧ toggled ≠ locked) := by
  refine ⟨fun instant change year once => localToIso_isoToLocal minutes year once, ?_⟩
  intro start stop opens closes locked toggled hopens hcloses
  simp only
  obtain ⟨start', sent, starts⟩ := hopens.sent minutes
  obtain ⟨stop', sent', stops⟩ := hcloses.sent minutes
  have submitted : submitBlock ⟨some start, some stop, locked⟩
      { loadBlockIntoForm ⟨some start, some stop, locked⟩ zone with locked := toggled } zone =
        (raiseIf ((start ≠ start' ∨ stop ≠ stop') ∧ locked ≠ toggled) lockApart >>= fun _ =>
          .ok ⟨some start', some stop', toggled⟩) := by
    unfold submitBlock loadBlockIntoForm
    simp only [sent, sent', Except.mapError, ok_bind, ne_eq, Option.some.injEq]
    rfl
  rw [submitted, ← starts, ← stops]
  constructor
  · rw [raiseIf_bind_ok]
    simp only [Except.ok.injEq, BlockTimes.mk.injEq, Option.some.injEq, and_true]
    constructor
    · exact And.right
    · rintro ⟨rfl, rfl⟩
      simp
  · have refused : (raiseIf ((start ≠ start' ∨ stop ≠ stop') ∧ locked ≠ toggled) lockApart >>=
        fun _ => (.ok ⟨some start', some stop', toggled⟩ : Except String BlockTimes)) =
          .error lockApart ↔ (start ≠ start' ∨ stop ≠ stop') ∧ locked ≠ toggled := by
      simp only [bind_error, raiseIf_error, and_true, reduceCtorEq, and_false, exists_const,
        or_false]
    rw [refused, not_and_or, ne_comm (a := start), ne_comm (a := stop), ne_comm (a := locked)]

theorem berlinAutumnOffset_bounded (instant : Int) :
    -2880 ≤ (if instant < 1792890000000 then 120 else (60 : Int)) ∧
      (if instant < 1792890000000 then 120 else (60 : Int)) ≤ 2880 := by
  split <;> decide

/-- Berlin around the night of 2026-10-25, when its clocks go back at one o'clock
UTC and read half past two a second time. -/
def berlinAutumn : TimeZone where
  offset instant := if instant < 1792890000000 then 120 else 60
  bounded := berlinAutumnOffset_bounded

/-- A block from the first half past two on is not locked on its own, and one from
the second is. -/
theorem editForms_keep_iff_berlin :
    (submitBlock ⟨some 1792888200000, some 1792893600000, false⟩
      ⟨"2026-10-25T02:30".toList, "2026-10-25T03:00".toList, true⟩ berlinAutumn =
        .error lockApart) ∧
    submitBlock ⟨some 1792891800000, some 1792893600000, false⟩
      ⟨"2026-10-25T02:30".toList, "2026-10-25T03:00".toList, true⟩ berlinAutumn =
        .ok ⟨some 1792891800000, some 1792893600000, true⟩ := by
  have minutes : ∀ instant, berlinAutumn.offset (instant / 60000 * 60000) =
      berlinAutumn.offset instant := by
    intro instant
    simp only [berlinAutumn]
    split <;> split <;> omega
  have around : ∀ instant ∈ [1792888200000, 1792891800000, 1792893600000],
      (⟨1792890000000, 120, 60⟩ : Change).Around berlinAutumn instant := by
    intro instant hinstant
    simp only [List.mem_cons, List.not_mem_nil, or_false] at hinstant
    rcases hinstant with rfl | rfl | rfl <;>
      exact ⟨by decide, by decide +kernel, fun _ _ _ => rfl⟩
  obtain ⟨-, blocks⟩ := editForms_keep_iff berlinAutumn minutes
  have stop := around 1792893600000 (by decide)
  obtain ⟨-, refused⟩ := blocks 1792888200000 1792893600000 _ _ false true
    (around 1792888200000 (by decide)) stop
  obtain ⟨accepted, -⟩ := blocks 1792891800000 1792893600000 _ _ false true
    (around 1792891800000 (by decide)) stop
  have form : ∀ start ∈ [1792888200000, 1792891800000],
      (loadBlockIntoForm ⟨some start, some 1792893600000, false⟩ berlinAutumn) =
        ⟨"2026-10-25T02:30".toList, "2026-10-25T03:00".toList, false⟩ := by
    decide +kernel
  rw [form 1792888200000 (by decide)] at refused
  rw [form 1792891800000 (by decide)] at accepted
  exact ⟨refused.mpr (by decide +kernel), accepted.mpr (by decide +kernel)⟩

end SmartPlanner.PlannerTime
