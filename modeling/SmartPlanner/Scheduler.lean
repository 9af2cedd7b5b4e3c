import SmartPlanner.Planner

/-!
The methods of `_Planner` and the two entry points of `scheduler.py`:
`build_preview` allocates work greedily, `inspect_layout` checks an exact layout
by turning every block into a lock. Names follow the source.
-/

namespace SmartPlanner

open Intervals Outcome Sorting

namespace AppError

def lockedDurationConflict : AppError :=
  ⟨409, .lockedDurationConflict, "مدت بلوک قفل‌شده با مدت یا اجازهٔ تقسیم کار سازگار نیست."⟩

def lockedBlockConflict : AppError :=
  ⟨409, .lockedBlockConflict, "بلوک قفل‌شده با وقت آزاد، تعهد، مهلت یا قفل دیگری تداخل دارد."⟩

def inactiveTaskBlock : AppError :=
  ⟨409, .inactiveTaskBlock, "کار انجام‌شده یا لغوشده نباید دوباره در برنامه زمان بگیرد."⟩

def invalidScheduleLayout : AppError :=
  ⟨409, .invalidScheduleLayout, "چیدمان با مدت کار، مهلت، وقت آزاد یا زمان کارهای دیگر سازگار نیست."⟩

end AppError

/-- `_gaps(mask, start, end)` as one loop over the positions; `left` is the
start of the run being read, if any. -/
def gapsLoop (mask : Mask) : Nat → Int → Option Int → List Interval
  | 0, _, none => []
  | 0, index, some left => [(left, index)]
  | n + 1, index, none =>
      if mask index then gapsLoop mask n (index + 1) (some index)
      else gapsLoop mask n (index + 1) none
  | n + 1, index, some left =>
      if mask index then gapsLoop mask n (index + 1) (some left)
      else (left, index) :: gapsLoop mask n (index + 1) none

def gaps (mask : Mask) (start stop : Int) : List Interval :=
  gapsLoop mask (stop - start).toNat start none

/-- A search either hits the budget (`SearchLimit`) or ends with a value; both
report the budget left. -/
inductive Search (α : Type)
  | limit (budget : Int)
  | done (value : α) (budget : Int)
deriving DecidableEq, Repr

/-- The inner loops of `find_slot` over the candidate starts; `best` is the
smallest `(cost, start)` so far. -/
def searchStarts (cost : Int → Int) :
    List Int → Int → Option (Int × Int) → Search (Option (Int × Int))
  | [], budget, best => .done best budget
  | start :: starts, budget, best =>
      if budget ≤ 0 then .limit budget
      else
        let key := (cost start, start)
        let better := match best with
          | none => true
          | some old => decide (toLex key < toLex old)
        searchStarts cost starts (budget - 1) (if better then some key else best)

/-- `range(begin, end - length + 1)` for every gap. -/
def candidateStarts (gaps : List Interval) (length : Int) : List Int :=
  gaps.flatMap fun gap =>
    (List.range (gap.2 - length + 1 - gap.1).toNat).map fun (k : Nat) => gap.1 + k

/-- `{"low": 8, "medium": 3, "high": 1}`. -/
def Flexibility.weight : Flexibility → Int
  | .low => 8
  | .medium => 3
  | .high => 1

/-- The result of the placement loop of `allocate_task`. -/
structure Placement where
  additions : List PlanBlock
  remaining : Int
  limited : Bool
  budget : Int

def UnscheduledReason.message : UnscheduledReason → String
  | .noSlotFound => "در این چیدمان زمان کافی پیش از مهلت پیدا نشد؛ وقت آزاد، مدت کار یا محدودهٔ برنامه را تغییر دهید."
  | .deadlinePassed => "مهلت کار پیش از اولین زمان قابل استفاده است."
  | .searchLimit => "سقف بررسی این پیش‌نمایش پر شد؛ تعداد کارها یا محدودهٔ برنامه را کمتر کنید."
  | .notScheduled => "این بخش از کار هنوز زمان‌بندی نشده است."

namespace Planner
variable (p : Planner)

/-- `sorted(self.previous, key=str)`: the pending tasks with a previous block. -/
def previousTasks : List TaskRecord :=
  sortBy (·.id) (p.pending.filter fun task => p.previous task.id ≠ [])

def reserveLocks (task : TaskRecord) :
    List PlanBlock → PlannerState → Except PyError PlannerState
  | [], state => .ok state
  | block :: blocks, state =>
      if p.validBlock task block (p.freeMask state.busy 0) then
        reserveLocks task blocks (p.reserve state block)
      else .error (.app .lockedBlockConflict)

/-- The locks of one task, in time order. -/
def locks (task : TaskRecord) : List PlanBlock :=
  sortBy (·.start) ((p.previous task.id).filter (·.locked))

/-- One round of the lock loop of `preserve_previous`. -/
def preserveLocks (state : PlannerState) (task : TaskRecord) :
    Except PyError PlannerState := do
  let lockedMinutes := minutesOf (p.locks task)
  raiseIf (task.durationMinutes < lockedMinutes ∨
    (p.locks task ≠ [] ∧ task.splittable = false ∧
      ((p.locks task).length ≠ 1 ∨ lockedMinutes ≠ task.durationMinutes)))
    (.app .lockedDurationConflict)
  p.reserveLocks task (p.locks task) state

def movable (task : TaskRecord) : List PlanBlock :=
  sortBy (·.start) ((p.previous task.id).filter (!·.locked))

/-- The `for ... else` of the movable blocks: each must fit what is still free. -/
def movableFits (task : TaskRecord) : List PlanBlock → Mask → Bool
  | [], _ => true
  | block :: blocks, mask =>
      p.validBlock task block mask &&
        movableFits task blocks
          (mask.fill (p.indices block.toTimeWindow).1 (p.indices block.toTimeWindow).2 false)

/-- One round of the movable loop of `preserve_previous`. -/
def preserveMovable (state : PlannerState) (task : TaskRecord) : PlannerState :=
  let previous := p.previous task.id
  if minutesOf previous ≠ task.durationMinutes ∨
      (task.splittable = false ∧ previous.length ≠ 1) then state
  else if p.movableFits task (p.movable task) (p.freeMask state.busy 0) then
    (p.movable task).foldl p.reserve state
  else state

def preservePrevious (state : PlannerState) : Except PyError PlannerState := do
  let state ← p.previousTasks.foldlM p.preserveLocks state
  return p.ordered.foldl p.preserveMovable state

def usage (intervals : List Interval) : List Int :=
  p.dayRanges.map fun range =>
    (intervals.map fun interval =>
      max 0 (min range.2 interval.2 - max range.1 interval.1)).sum

/-- The first component of `score`; the second one is `start`. -/
def score (task : TaskRecord) (start length : Int) (used : List Int) : Int :=
  let stop := start + length
  let weighted := [(task.preferredPeriod.part?, (6 : Int)),
    (p.preferences.chronotype.part?, 2), (some p.preferences.deepWorkPeriod, 1)]
  let periods := (weighted.map fun (part?, weight) =>
    match part? with
    | none => 0
    | some part => weight * ((p.periodPrefix part).getD stop.toNat 0 -
        (p.periodPrefix part).getD start.toNat 0)).sum * 100 / length
  let overflows := ((p.dayRanges.zip (used.zip p.targets)).map fun (range, use, target) =>
    let added := max 0 (min stop range.2 - max start range.1)
    let overflow := max 0 (use + added - target) - max 0 (use - target)
    overflow * 300 / length).sum
  let moved := match p.previousStart task.id with
    | none => 0
    | some old => (start - old).natAbs * p.preferences.flexibility.weight / 15
  periods + overflows + moved

/-- One pass of the pause loop of `find_slot`; `done none` continues the loop. -/
def searchPause (task : TaskRecord) (remaining : Int) (busy : List Interval)
    (used : List Int) (pause budget : Int) : Search (Option Interval) :=
  let (left, right) := p.bounds task
  let target := if task.splittable then min remaining p.preferences.focusBlockMinutes
    else remaining
  let free := gaps (p.freeMask busy pause) left right
  let longest := (free.map fun gap => gap.2 - gap.1).foldl max 0
  let length := if task.splittable then min target longest else target
  if length = 0 ∨ longest < length then .done none budget
  else
    match searchStarts (fun start => p.score task start length used)
        (candidateStarts free length) budget none with
    | .limit budget => .limit budget
    | .done best budget => .done (best.map fun key => (key.2, length)) budget

def findSlotLoop (task : TaskRecord) (remaining : Int) (busy : List Interval)
    (used : List Int) : List Int → Int → Search (Option Interval)
  | [], budget => .done none budget
  | pause :: pauses, budget =>
      match p.searchPause task remaining busy used pause budget with
      | .limit budget => .limit budget
      | .done (some slot) budget => .done (some slot) budget
      | .done none budget => findSlotLoop task remaining busy used pauses budget

/-- `dict.fromkeys((self.preferences.break_minutes, 0))`. -/
def pauses : List Int :=
  if p.preferences.breakMinutes = 0 then [0] else [p.preferences.breakMinutes, 0]

/-- The chosen `(start, length)`, if any. -/
def findSlot (task : TaskRecord) (remaining : Int) (busy : List Interval)
    (used : List Int) (budget : Int) : Search (Option Interval) :=
  p.findSlotLoop task remaining busy used p.pauses budget

/-- The `while remaining` loop of `allocate_task`. Every piece is at least one
minute long, so as much fuel as minutes remain is never exhausted early. -/
def placePieces (task : TaskRecord) (placedBlocks : Nat) :
    Nat → Int → List PlanBlock → List Interval → List Interval → Int →
      Except PyError Placement
  | 0, remaining, additions, _, _, budget => .ok ⟨additions, remaining, false, budget⟩
  | fuel + 1, remaining, additions, busy, intervals, budget =>
      if remaining = 0 then .ok ⟨additions, remaining, false, budget⟩
      else if maxBlocks ≤ placedBlocks + additions.length then
        .ok ⟨additions, remaining, true, budget⟩
      else
        match p.findSlot task remaining busy (p.usage intervals) budget with
        | .limit budget => .ok ⟨additions, remaining, true, budget⟩
        | .done none budget => .ok ⟨additions, remaining, false, budget⟩
        | .done (some (start, length)) budget =>
            match PlanBlock.make task.id (p.start + start * minute)
                (p.start + (start + length) * minute) with
            | .error error => .error error
            | .ok block =>
                placePieces task placedBlocks fuel (remaining - length)
                  (additions ++ [block]) (busy ++ [(start, start + length)])
                  (intervals ++ [(start, start + length)]) budget

/-- The minutes a state already gives to a task. -/
def placedMinutes (state : PlannerState) (taskId : UUID) : Int :=
  minutesOf (state.blocks.filter (·.taskId = taskId))

def unscheduledReason (task : TaskRecord) (limited : Bool) : UnscheduledReason :=
  if task.deadline.isSome ∧ (p.bounds task).2 ≤ (p.bounds task).1 then .deadlinePassed
  else if limited then .searchLimit
  else .noSlotFound

def allocateTask (state : PlannerState) (task : TaskRecord) :
    Except PyError PlannerState := do
  let remaining := task.durationMinutes - placedMinutes state task.id
  if remaining = 0 then return state
  let placement ← p.placePieces task state.blocks.length remaining.toNat remaining []
    state.busy (state.blocks.map fun block => p.indices block.toTimeWindow) state.budget
  let state := { state with budget := placement.budget }
  if placement.remaining = 0 then
    return placement.additions.foldl p.reserve state
  let reason := p.unscheduledReason task placement.limited
  let entry ← UnscheduledTask.make task.id task.title remaining reason reason.message
  return { state with unscheduled := state.unscheduled ++ [entry] }

def warnings (state : PlannerState) : List Warning :=
  let chronological := sortBy toLex state.busy
  let used := p.usage (state.blocks.map fun block => p.indices block.toTimeWindow)
  (if p.preferences.breakMinutes ≠ 0 ∧
      (chronological.zip chronological.tail).any (fun (previous, following) =>
        decide (0 ≤ following.1 - previous.2) &&
          decide (following.1 - previous.2 < p.preferences.breakMinutes))
    then [.breakPreferenceNotMet] else []) ++
  (if (used.zip p.targets).any (fun (minutes, target) => decide (target < minutes))
    then [.workloadPreferenceNotMet] else []) ++
  (if p.pending.any (fun task => !task.splittable &&
      decide (p.preferences.focusBlockMinutes < task.durationMinutes) &&
        state.blocks.any (fun block => block.taskId = task.id))
    then [.unsplittableTaskExceedsFocusPreference] else [])

/-- `tuple(sorted(set(planner.tasks) - set(planner.pending), key=str))`. -/
def ignoredTaskIds : List UUID :=
  sortBy id ((p.tasks.filter fun task => task.status ≠ .pending).map (·.id))

/-- `task_versions` of the preview, in key order. -/
def taskVersions : List (UUID × Nat) :=
  sortBy Prod.fst (p.tasks.map fun task => (task.id, task.version))

end Planner

/-- `sorted(planner.blocks, key=lambda block: (block.start, str(block.task_id)))`. -/
def sortBlocks (blocks : List PlanBlock) : List PlanBlock :=
  sortBy (fun block => toLex (block.start, block.taskId)) blocks

section
variable (zoneInfo : String → Zone)

def buildPreview (request : PreviewRequest) (tasks : List TaskRecord)
    (preferences : PreferenceValues) (timezoneName : String) (now : Int)
    (preferenceVersion : Nat) (searchBudget : Int) : Except PyError PlanPreview := do
  let planner ← Planner.init request tasks preferences (zoneInfo timezoneName) now
  let state ← planner.preservePrevious (planner.initial searchBudget)
  let state ← planner.ordered.foldlM planner.allocateTask state
  let horizon ← TimeWindow.make planner.start planner.stop
  return {
    horizon
    timezone := timezoneName
    plannedAt := planner.now
    blocks := sortBlocks state.blocks
    fixedEvents := sortEvents request.fixedEvents
    unscheduled := state.unscheduled
    ignoredTaskIds := planner.ignoredTaskIds
    taskVersions := planner.taskVersions
    preferenceVersion
    warnings := planner.warnings state
  }

/-- What `inspect_layout` returns. -/
structure LayoutReport where
  horizon : TimeWindow
  missing : List UnscheduledTask
  ignoredTaskIds : List UUID
  warnings : List Warning
deriving DecidableEq

/-- The `except AppError` clause of `inspect_layout`. -/
def relabelLockErrors : Except PyError PlannerState → Except PyError PlannerState
  | .error (.app error) =>
      if error.code = .lockedBlockConflict ∨ error.code = .lockedDurationConflict then
        .error (.app .invalidScheduleLayout)
      else .error (.app error)
  | result => result

/-- One round of the `missing` loop of `inspect_layout`. -/
def missingEntry (blocks : List PlanBlock) (missing : List UnscheduledTask)
    (task : TaskRecord) : Except PyError (List UnscheduledTask) := do
  let used := minutesOf (blocks.filter (·.taskId = task.id))
  if used < task.durationMinutes then
    let entry ← UnscheduledTask.make task.id task.title (task.durationMinutes - used)
      .notScheduled UnscheduledReason.notScheduled.message
    return missing ++ [entry]
  return missing

def inspectLayout (window : PlanningWindow) (blocks : List PlanBlock)
    (tasks : List TaskRecord) (preferences : PreferenceValues) (timezoneName : String) :
    Except PyError LayoutReport := do
  raiseIf (∃ block ∈ blocks, ∀ task ∈ tasks, task.status = .pending → block.taskId ≠ task.id)
    (.app .inactiveTaskBlock)
  let request ← PreviewRequest.make window (blocks.map PlanBlock.lock)
  let zone := zoneInfo timezoneName
  let reference := zone.dayStart request.startDate
  let planner ← Planner.init request tasks preferences zone reference
  let state ← relabelLockErrors (planner.preservePrevious (planner.initial 0))
  let missing ← planner.ordered.foldlM (missingEntry blocks) []
  let horizon ← TimeWindow.make planner.start planner.stop
  return { horizon, missing, ignoredTaskIds := planner.ignoredTaskIds,
           warnings := planner.warnings state }

end

end SmartPlanner
