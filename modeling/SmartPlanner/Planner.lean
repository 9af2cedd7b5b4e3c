import SmartPlanner.PlanningModels
import SmartPlanner.Library.Intervals
import SmartPlanner.Library.Outcome
import SmartPlanner.Library.Sorting
import Mathlib.Data.Prod.Lex
import Mathlib.Data.String.Basic

/-!
`_Planner.__init__` of `scheduler.py`: the minute grid of a horizon. `Planner`
holds what the constructor computes and no later method changes;
`PlannerState` holds the busy list, the placed blocks, the unscheduled entries
and the search budget. The calls `now.astimezone(timezone.utc)` are identities
on instants.
-/

namespace SmartPlanner

open Intervals Outcome Sorting

/-- `MAX_CANDIDATES`. -/
def maxCandidates : Int := 250000

/-- `MAX_BLOCKS`. -/
def maxBlocks : Nat := 512

namespace AppError

def pastPlanningDate : AppError :=
  ⟨422, .pastPlanningDate, "تاریخ برنامه باید امروز یا پس از امروز باشد."⟩

def invalidLocalDay : AppError :=
  ⟨422, .invalidLocalDay, "این روز در منطقهٔ زمانی انتخاب‌شده قابل برنامه‌ریزی نیست."⟩

def unsupportedTimeBoundary : AppError :=
  ⟨422, .unsupportedTimeBoundary, "مرز روز باید با دقت دقیقه قابل نمایش باشد."⟩

def availabilityOutsideHorizon : AppError :=
  ⟨422, .availabilityOutsideHorizon, "وقت آزاد باید داخل محدودهٔ روز یا هفتهٔ انتخاب‌شده باشد."⟩

def eventOutsideHorizon : AppError :=
  ⟨422, .eventOutsideHorizon, "تعهد ثابت باید با محدودهٔ برنامه اشتراک زمانی داشته باشد."⟩

def fixedEventConflict : AppError :=
  ⟨409, .fixedEventConflict, "دو تعهد ثابت با هم تداخل دارند؛ ساعت آن‌ها را اصلاح کنید."⟩

end AppError

/-- The range of whole minutes a window covers, counted from the horizon start:
`_Planner.indices`. -/
def indicesFrom (start : Int) (window : TimeWindow) : Interval :=
  (truncMinutes (window.start - start), truncMinutes (window.stop - start))

/-- The availability loop: every window must lie inside the horizon. -/
def openWindows (start size : Int) : List TimeWindow → Mask → Except PyError Mask
  | [], mask => .ok mask
  | window :: windows, mask =>
      let (left, right) := indicesFrom start window
      if left < 0 ∨ size < right then .error (.app .availabilityOutsideHorizon)
      else openWindows start size windows (mask.fill left right true)

/-- A window clipped to the horizon. -/
def clip (start size : Int) (window : TimeWindow) : Interval :=
  (max 0 (indicesFrom start window).1, min size (indicesFrom start window).2)

/-- The fixed-event loop over events in time order: each must meet the horizon
and start after the previous one ended. -/
def blockEvents (start size : Int) :
    List FixedEvent → List Interval → Mask → Except PyError (List Interval × Mask)
  | [], busy, mask => .ok (busy, mask)
  | event :: events, busy, mask =>
      let (left, right) := clip start size event.toTimeWindow
      if right ≤ left then .error (.app .eventOutsideHorizon)
      else if ∃ last ∈ busy.getLast?, left < last.2 then
        .error (.app .fixedEventConflict)
      else blockEvents start size events (busy ++ [(left, right)])
        (mask.fill left right false)

/-- `sorted(fixed_events, key=lambda event: (event.start, event.end, event.title))`. -/
def sortEvents (events : List FixedEvent) : List FixedEvent :=
  sortBy (fun event => toLex (event.start, toLex (event.stop, event.title))) events

/-- The part of the day a local hour belongs to, if any. -/
def dayPartOf (hour : Int) : Option DayPart :=
  if 6 ≤ hour ∧ hour < 12 then some .morning
  else if 12 ≤ hour ∧ hour < 18 then some .afternoon
  else if 18 ≤ hour then some .evening
  else none

/-- One round of the day loop: a new local date closes the last range and opens
the next one. -/
def extendDays (zone : Zone) (start size : Int)
    (acc : List Interval × Option Int) (index : Nat) : List Interval × Option Int :=
  let date := zone.localDate (start + index * minute)
  if some date = acc.2 then acc
  else
    let closed := match acc.1.getLast? with
      | none => acc.1
      | some last => acc.1.dropLast ++ [(last.1, (index : Int))]
    (closed ++ [((index : Int), size)], some date)

/-- `self.day_ranges`. -/
def dayRanges (zone : Zone) (start size : Int) : List Interval :=
  ((List.range size.toNat).foldl (extendDays zone start size) ([], none)).1

/-- `self.period_prefix[name]`: running counts of the minutes outside a part of
the day. -/
def periodPrefix (zone : Zone) (start size : Int) (part : DayPart) : List Int :=
  (List.range size.toNat).scanl
    (fun count (index : Nat) =>
      count + if dayPartOf (zone.localHour (start + index * minute)) = some part
        then 0 else 1) 0

/-- `{"light": 50, "medium": 75, "intense": 100}`. -/
def Workload.fraction : Workload → Int
  | .light => 50
  | .medium => 75
  | .intense => 100

structure Planner where
  request : PreviewRequest
  preferences : PreferenceValues
  zone : Zone
  now : Int
  start : Int
  stop : Int
  size : Int
  floor : Int
  tasks : List TaskRecord
  available : Mask
  events : List Interval
  dayRanges : List Interval
  periodPrefix : DayPart → List Int
  targets : List Int

structure PlannerState where
  busy : List Interval
  blocks : List PlanBlock
  unscheduled : List UnscheduledTask
  budget : Int

/-- The task snapshot holds each selected id exactly once and no other. -/
def SnapshotMatches (taskIds : List UUID) (tasks : List TaskRecord) : Prop :=
  (tasks.map (·.id)).Nodup ∧ (∀ task ∈ tasks, task.id ∈ taskIds) ∧
  ∀ id ∈ taskIds, id ∈ tasks.map (·.id)

instance (taskIds : List UUID) (tasks : List TaskRecord) :
    Decidable (SnapshotMatches taskIds tasks) :=
  inferInstanceAs (Decidable (_ ∧ _))

/-- The fields computed from the arguments, the free minutes and the events. -/
def Planner.assemble (request : PreviewRequest) (tasks : List TaskRecord)
    (preferences : PreferenceValues) (zone : Zone) (now : Int)
    (events : List Interval) (available : Mask) : Planner :=
  let start := zone.dayStart request.startDate
  let stop := zone.dayStart (request.startDate + request.days)
  let size := truncMinutes (stop - start)
  let ranges := SmartPlanner.dayRanges zone start size
  { request, preferences, zone, now, start, stop, size, tasks, available, events
    floor := min size (max 0 (ceilMinutes (now - start)))
    dayRanges := ranges
    periodPrefix := SmartPlanner.periodPrefix zone start size
    targets := ranges.map fun range =>
      max 1 (Mask.count available range.1 range.2 * preferences.workload.fraction / 100) }

/-- `_Planner(request, tasks, preferences, zone, now, budget)`, without the
budget, which only the search uses. -/
def Planner.init (request : PreviewRequest) (tasks : List TaskRecord)
    (preferences : PreferenceValues) (zone : Zone) (now : Int) : Except PyError Planner := do
  raiseIf (request.startDate < zone.localDate now) (.app .pastPlanningDate)
  let start := zone.dayStart request.startDate
  let stop := zone.dayStart (request.startDate + request.days)
  let size := truncMinutes (stop - start)
  raiseIf (¬ (1 ≤ size ∧ size ≤ 8 * 1440) ∨ zone.localDate start ≠ request.startDate)
    (.app .invalidLocalDay)
  raiseIf (secondOf start ≠ 0 ∨ secondOf stop ≠ 0) (.app .unsupportedTimeBoundary)
  let floor := min size (max 0 (ceilMinutes (now - start)))
  raiseIf (¬ SnapshotMatches request.taskIds tasks) .value
  let opened ← openWindows start size request.availability (fun _ => false)
  let (events, available) ← blockEvents start size (sortEvents request.fixedEvents) []
    (opened.fill 0 floor false)
  return Planner.assemble request tasks preferences zone now events available

namespace Planner
variable (p : Planner)

/-- `self.pending`, in the order of the snapshot. -/
def pending : List TaskRecord := p.tasks.filter fun task => task.status = .pending

/-- `self.previous[task_id]`: the previous blocks of a pending task. -/
def previous (taskId : UUID) : List PlanBlock :=
  p.request.previousBlocks.filter fun block =>
    block.taskId = taskId ∧ ∃ task ∈ p.pending, task.id = block.taskId

def indices (window : TimeWindow) : Interval := indicesFrom p.start window

/-- `self.previous_start.get(task_id)`. -/
def previousStart (taskId : UUID) : Option Int :=
  ((p.previous taskId).map fun block => (p.indices block.toTimeWindow).1).min?

def bounds (task : TaskRecord) : Interval :=
  let left := max p.floor (match task.earliestStart with
    | some earliest => ceilMinutes (earliest - p.start)
    | none => 0)
  let right := min p.size (match task.deadline with
    | some deadline => floorMinutes (deadline - p.start)
    | none => p.size)
  (max 0 (min p.size left), max 0 (min p.size right))

/-- `order(task)`: deadline, then priority, then `str(task.id)`. -/
def order (task : TaskRecord) : Int ×ₗ Int ×ₗ Nat :=
  toLex (min (task.deadline.getD p.stop) p.stop, toLex (-task.priority, task.id))

/-- `sorted(self.pending.values(), key=self.order)`. -/
def ordered : List TaskRecord := sortBy p.order p.pending

/-- The state the constructor leaves. -/
def initial (budget : Int) : PlannerState := ⟨p.events, [], [], budget⟩

def freeMask (busy : List Interval) (pause : Int) : Mask :=
  busy.foldl (fun mask interval =>
    Mask.fill mask (max 0 (interval.1 - pause)) (min p.size (interval.2 + pause)) false)
    p.available

def validBlock (task : TaskRecord) (block : PlanBlock) (mask : Mask) : Bool :=
  let (left, right) := p.indices block.toTimeWindow
  let (earliest, latest) := p.bounds task
  decide (earliest ≤ left) && decide (left < right) && decide (right ≤ latest) &&
    Mask.all mask left right

def reserve (state : PlannerState) (block : PlanBlock) : PlannerState :=
  { state with
    blocks := state.blocks ++ [block]
    busy := state.busy ++ [p.indices block.toTimeWindow] }

end Planner

end SmartPlanner
