import SmartPlanner.Library.Lines
import SmartPlanner.Library.Utf16
import SmartPlanner.PlannerTime
import SmartPlanner.ScheduleModels
import SmartPlanner.Timestamps

/-!
`planner_export.mjs`: the CSV file and the iCalendar file of a saved schedule.
The browser holds the JSON of the schedule that the service answered: its texts
are UTF-16 strings, an id is its hexadecimal text, and an instant stands for its
ISO text, which `new Date` reads. How `localeCompare` orders texts is a parameter.
-/

namespace SmartPlanner.PlannerExport

open Decimal PlannerTime Utf16

/-- A JavaScript string. -/
abbrev JsString := List UInt16

def tab : UInt16 := 0x09
def lf : UInt16 := 0x0A
def cr : UInt16 := 0x0D
def space : UInt16 := 0x20
def quote : UInt16 := 0x22
def apostrophe : UInt16 := 0x27
def comma : UInt16 := 0x2C
def colon : UInt16 := 0x3A
def semicolon : UInt16 := 0x3B
def backslash : UInt16 := 0x5C
def bom : UInt16 := 0xFEFF

def crlf : JsString := [cr, lf]

/-- `text.replace(/unit/g, replacement)`. -/
def replaceAll (unit : UInt16) (replacement text : JsString) : JsString :=
  text.flatMap fun x => if x = unit then replacement else [x]

/-- `\s` of a regular expression. -/
def isSpace (unit : UInt16) : Bool :=
  (0x09 ≤ unit ∧ unit ≤ 0x0D) ∨ (0x2000 ≤ unit ∧ unit ≤ 0x200A) ∨
    unit ∈ [0x20, 0xA0, 0x1680, 0x2028, 0x2029, 0x202F, 0x205F, 0x3000, 0xFEFF]

/-- `[=+@-]`. -/
def isFormula (unit : UInt16) : Bool := unit ∈ ofString "=+@-"

/-- The JSON text of an id. -/
def uuidText (id : UUID) : List Char :=
  let hex (width n : Nat) := (List.range width).map fun i =>
    Nat.digitChar (n / 16 ^ (width - 1 - i) % 16)
  hex 8 (id / 16 ^ 24) ++ '-' :: hex 4 (id / 16 ^ 20) ++ '-' :: hex 4 (id / 16 ^ 16) ++
    '-' :: hex 4 (id / 16 ^ 12) ++ '-' :: hex 12 id

/-- The JSON text of an instant: without a fraction when it is on the second. -/
def isoText (instant : Int) : List Char :=
  let layout (mark : Char) := [(4, '-'), (2, '-'), (2, 'T'), (2, ':'), (2, ':'), (2, mark)]
  if instant % 1000000 = 0 then text (layout 'Z') (clockFields instant)
  else text (layout '.') (clockFields instant) ++ (pad 6 (instant % 1000000).toNat ++ ['Z'])

/-- `text.replace(/\.\d{3}/, '')`. -/
def dropMillis : List Char → List Char
  | [] => []
  | c :: rest =>
      if c = '.' ∧ (rest.take 3).length = 3 ∧ (rest.take 3).all Char.isDigit then rest.drop 3
      else c :: dropMillis rest

def utcStamp (value : Int) : JsString :=
  ofChars (dropMillis ((toISOString (value / 1000)).filter fun c => c ≠ '-' ∧ c ≠ ':'))

def icsText (value : JsString) : JsString :=
  replaceAll semicolon [backslash, semicolon] (replaceAll comma [backslash, comma]
    (replaceAll lf (ofString "\\n") (replaceAll backslash [backslash, backslash] value)))

def csvCell (value : JsString) : JsString :=
  -- The first unit that `^[\s]*` cannot match is the one after the blanks.
  let safe := if (value.dropWhile isSpace).head?.any isFormula then apostrophe :: value else value
  quote :: replaceAll quote [quote, quote] safe ++ [quote]

/-- One turn of the loop of `foldIcs`. -/
def foldStep (state : List JsString × JsString) (character : JsString) :
    List JsString × JsString :=
  let (pieces, current) := state
  if (encode (current ++ character)).length > 75 then
    (pieces ++ [current], space :: character)
  else (pieces, current ++ character)

/-- The pieces that `foldIcs` joins. -/
def foldPieces (line : JsString) : List JsString :=
  let (pieces, current) := (codePoints line).foldl foldStep ([], [])
  pieces ++ [current]

def foldIcs (line : JsString) : JsString := crlf.intercalate (foldPieces line)

/-- A row of `scheduleRows`; `stop` is the source's `end`. -/
structure ExportRow where
  id : JsString
  type : JsString
  title : JsString
  start : Int
  stop : Int

section
variable (localeCompare : JsString → JsString → Int) (schedule : SavedSchedule)

/-- `schedule.state.task_titles[taskId] || 'Task'`. -/
def taskTitle (taskId : UUID) : String :=
  match schedule.state.taskTitles.find? fun entry => entry.1 = taskId with
  | some (_, title) => if title = "" then "Task" else title
  | none => "Task"

/-- The row of a fixed event. -/
def fixedRow (index : Nat) (event : FixedEvent) : ExportRow where
  id := ofString "fixed-" ++ ofChars (Nat.toDigits 10 index)
  type := ofString "fixed"
  title := ofString event.title
  start := event.start
  stop := event.stop

/-- The row of a block. -/
def taskRow (index : Nat) (block : PlanBlock) : ExportRow where
  id := ofString "task-" ++ ofChars (uuidText block.taskId) ++ ofString "-" ++
    ofChars (Nat.toDigits 10 index)
  type := ofString "task"
  title := ofString (taskTitle schedule block.taskId)
  start := block.start
  stop := block.stop

def scheduleRows : List ExportRow :=
  let content := schedule.state.content
  (content.fixedEvents.mapIdx fixedRow ++ content.blocks.mapIdx (taskRow schedule)).mergeSort
    fun a b => localeCompare (ofChars (isoText a.start)) (ofChars (isoText b.start)) ≤ 0

/-- The cells of a row of `scheduleCsv`. -/
def csvRecord (row : ExportRow) : List JsString :=
  [row.type, row.title, ofChars (isoText row.start), ofChars (isoText row.stop)]

def csvHeader : List JsString :=
  ["type", "title", "start_utc", "end_utc"].map ofString

def scheduleCsv : JsString :=
  let lines := csvHeader :: (scheduleRows localeCompare schedule).map csvRecord
  bom :: crlf.intercalate (lines.map fun row => [comma].intercalate (row.map csvCell)) ++ crlf

def icsHeader : List JsString :=
  ["BEGIN:VCALENDAR", "VERSION:2.0", "PRODID:-//SmartPlanner//Schedule//EN",
    "CALSCALE:GREGORIAN"].map ofString

/-- The lines of one row of `scheduleIcs`. -/
def icsEvent (row : ExportRow) : List JsString :=
  [ofString "BEGIN:VEVENT",
    ofString "UID:" ++ ofChars (uuidText schedule.id) ++ ofString "-" ++ row.id ++
      ofString "@smartplanner",
    ofString "DTSTAMP:" ++ utcStamp schedule.updatedAt,
    ofString "DTSTART:" ++ utcStamp row.start,
    ofString "DTEND:" ++ utcStamp row.stop,
    ofString "SUMMARY:" ++ icsText row.title,
    ofString "END:VEVENT"]

def scheduleIcs : JsString :=
  let lines := icsHeader ++ (scheduleRows localeCompare schedule).flatMap (icsEvent schedule) ++
    [ofString "END:VCALENDAR"]
  crlf.intercalate (lines.map foldIcs) ++ crlf

end

/-- The rows are those of the fixed events and of the blocks. -/
theorem mem_scheduleRows {localeCompare : JsString → JsString → Int} {schedule : SavedSchedule}
    {row : ExportRow} : row ∈ scheduleRows localeCompare schedule ↔
      (∃ index, ∃ h : index < schedule.state.content.fixedEvents.length,
        fixedRow index schedule.state.content.fixedEvents[index] = row) ∨
      ∃ index, ∃ h : index < schedule.state.content.blocks.length,
        taskRow schedule index schedule.state.content.blocks[index] = row := by
  unfold scheduleRows
  rw [List.mem_mergeSort, List.mem_append, List.mem_mapIdx, List.mem_mapIdx]

end SmartPlanner.PlannerExport
