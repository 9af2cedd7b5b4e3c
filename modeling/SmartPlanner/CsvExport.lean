import SmartPlanner.Library.Csv
import SmartPlanner.PlannerExport
import Mathlib.Data.List.TakeWhile

/-!
The CSV file read back: `scheduleCsv` writes quoted fields, so a reader finds one
record for each row whatever the titles hold, and no field that a spreadsheet
would take for a formula.
-/

namespace SmartPlanner.PlannerExport

open Csv Decimal Utf16

theorem csvMarks_distinct : [quote, comma, cr, lf].Nodup := by decide

/-- The symbols of the file. -/
def csvMarks : Marks UInt16 := ⟨quote, comma, cr, lf, csvMarks_distinct⟩

/-- The first symbol that is not a blank starts a formula. -/
def StartsFormula (text : JsString) : Prop :=
  ∃ unit ∈ text.find? fun unit => !isSpace unit, isFormula unit

instance (text : JsString) : Decidable (StartsFormula text) :=
  inferInstanceAs (Decidable (∃ unit ∈ text.find? fun unit => !isSpace unit, isFormula unit))

/-- What a cell holds: its text, after an apostrophe where it would start a formula. -/
def guarded (text : JsString) : JsString :=
  if StartsFormula text then apostrophe :: text else text

/-- The record of a row. -/
def exportRecord (row : ExportRow) : List JsString :=
  [row.type, guarded row.title, ofChars (isoText row.start), ofChars (isoText row.stop)]

/-- The guard of `csvCell` finds the same symbol. -/
theorem startsFormula_iff (text : JsString) :
    StartsFormula text ↔ (text.dropWhile isSpace).head?.any isFormula = true := by
  rw [StartsFormula, List.find?_not_eq_head?_dropWhile, Option.any_eq_true]
  rfl

theorem csvCell_eq (text : JsString) : csvCell text = writeField csvMarks (guarded text) := by
  have safe : guarded text =
      if (text.dropWhile isSpace).head?.any isFormula then apostrophe :: text else text :=
    if_congr (startsFormula_iff text) rfl rfl
  rw [safe]
  rfl

/-- A text whose first symbol is neither a blank nor the start of a formula. -/
theorem not_startsFormula_cons {unit : UInt16} (shown : isSpace unit = false)
    (plain : isFormula unit = false) (rest : JsString) : ¬ StartsFormula (unit :: rest) := by
  rintro ⟨first, hfirst, formula⟩
  rw [List.find?_cons_of_pos (by simp [shown]), Option.mem_some_iff] at hfirst
  rw [← hfirst, plain] at formula
  contradiction

theorem guarded_safe (text : JsString) : ¬ StartsFormula (guarded text) := by
  unfold guarded
  split
  · exact not_startsFormula_cons (by decide) (by decide) text
  · assumption

theorem guarded_eq {text : JsString} (h : ¬ StartsFormula text) : guarded text = text := if_neg h

/-- Digits are neither blanks nor the start of a formula. -/
theorem units_digitChar (n : Nat) :
    ∃ unit, units n.digitChar = [unit] ∧ isSpace unit = false ∧ isFormula unit = false := by
  have table : ∀ n ≤ 16, units n.digitChar = [.ofNat n.digitChar.toNat] ∧
      isSpace (.ofNat n.digitChar.toNat) = false ∧
      isFormula (.ofNat n.digitChar.toNat) = false := by decide
  exact ⟨_, @forall_digitChar (fun c => units c = [.ofNat c.toNat] ∧
    isSpace (.ofNat c.toNat) = false ∧ isFormula (.ofNat c.toNat) = false) table n⟩

theorem isoText_eq_cons (instant : Int) :
    ∃ n rest, isoText instant = Nat.digitChar n :: rest := by
  unfold isoText
  dsimp only
  split <;> exact ⟨_, _, rfl⟩

theorem isoText_safe (instant : Int) : ¬ StartsFormula (ofChars (isoText instant)) := by
  obtain ⟨n, rest, h⟩ := isoText_eq_cons instant
  obtain ⟨unit, hunit, shown, plain⟩ := units_digitChar n
  rw [h, ofChars_cons, hunit]
  exact not_startsFormula_cons shown plain _

theorem type_safe {localeCompare : JsString → JsString → Int} {schedule : SavedSchedule}
    {row : ExportRow} (h : row ∈ scheduleRows localeCompare schedule) :
    ¬ StartsFormula row.type := by
  have types : row.type = ofString "fixed" ∨ row.type = ofString "task" := by
    rcases mem_scheduleRows.mp h with ⟨index, -, rfl⟩ | ⟨index, -, rfl⟩
    · exact Or.inl rfl
    · exact Or.inr rfl
  rcases types with h | h <;> rw [h] <;> decide

/-- The cells of a row read as its record. -/
theorem csvRecord_cells {localeCompare : JsString → JsString → Int} {schedule : SavedSchedule}
    {row : ExportRow} (h : row ∈ scheduleRows localeCompare schedule) :
    (csvRecord row).map csvCell = (exportRecord row).map (writeField csvMarks) := by
  simp only [csvRecord, exportRecord, List.map_cons, List.map_nil, csvCell_eq,
    guarded_eq (type_safe h), guarded_eq (isoText_safe _)]

theorem exportRecord_safe {localeCompare : JsString → JsString → Int} {schedule : SavedSchedule}
    {row : ExportRow} (h : row ∈ scheduleRows localeCompare schedule) :
    ∀ field ∈ exportRecord row, ¬ StartsFormula field := by
  simp only [exportRecord, List.forall_mem_cons, List.not_mem_nil, false_implies, implies_true,
    and_true]
  exact ⟨type_safe h, guarded_safe _, isoText_safe _, isoText_safe _⟩

theorem csvHeader_safe : ∀ field ∈ csvHeader, ¬ StartsFormula field := by decide

theorem csvHeader_cells : csvHeader.map csvCell = csvHeader.map (writeField csvMarks) := by
  refine List.map_congr_left fun field hfield => ?_
  rw [csvCell_eq, guarded_eq (csvHeader_safe field hfield)]

/-- A reader of the exported file gets the header and the rows in order, with
their types and times as they are and their titles guarded, and no field that
starts a formula. -/
theorem scheduleCsv_readBack (localeCompare : JsString → JsString → Int)
    (schedule : SavedSchedule) :
    ∃ file, scheduleCsv localeCompare schedule = bom :: file ∧
      parse csvMarks file =
        some (csvHeader :: (scheduleRows localeCompare schedule).map exportRecord) ∧
      ∀ record ∈ csvHeader :: (scheduleRows localeCompare schedule).map exportRecord,
        ∀ field ∈ record, ¬ StartsFormula field := by
  have rows : ((scheduleRows localeCompare schedule).map csvRecord).map
        (fun row => [comma].intercalate (row.map csvCell)) =
      ((scheduleRows localeCompare schedule).map exportRecord).map (writeRecord csvMarks) := by
    rw [List.map_map, List.map_map]
    refine List.map_congr_left fun row hrow => ?_
    rw [Function.comp_apply, Function.comp_apply, csvRecord_cells hrow]
    rfl
  refine ⟨write csvMarks (csvHeader :: (scheduleRows localeCompare schedule).map exportRecord),
    ?_, parse_write (List.cons_ne_nil _ _) ?_, ?_⟩
  · unfold scheduleCsv
    dsimp only
    rw [List.map_cons, rows, csvHeader_cells, List.cons_append]
    rfl
  · rw [List.forall_mem_cons, List.forall_mem_map]
    exact ⟨by decide, fun row _ => List.cons_ne_nil _ _⟩
  · rw [List.forall_mem_cons, List.forall_mem_map]
    exact ⟨csvHeader_safe, fun row hrow => exportRecord_safe hrow⟩

end SmartPlanner.PlannerExport
