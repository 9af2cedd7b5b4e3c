import SmartPlanner.Models
import Mathlib.Algebra.BigOperators.Group.List.Basic
import Mathlib.Algebra.Ring.Int.Defs

/-!
`planning_models.py`: the bounded contracts of a preview. Every window holds
whole minutes of supported years with its end after its start.
-/

namespace SmartPlanner

/-- The validators of `TimeWindow`. -/
def WindowValid (start stop : Int) : Prop :=
  (SupportedYear start ∧ start % minute = 0) ∧
  (SupportedYear stop ∧ stop % minute = 0) ∧ start < stop

instance (start stop : Int) : Decidable (WindowValid start stop) :=
  inferInstanceAs (Decidable (_ ∧ _))

/-- `stop` is the source's `end`. -/
structure TimeWindow where
  start : Int
  stop : Int
  windowValid : WindowValid start stop
deriving DecidableEq

structure FixedEvent extends TimeWindow where
  title : String
  titleValid : TitleValid title
deriving DecidableEq

structure PlanBlock extends TimeWindow where
  taskId : UUID
  locked : Bool
deriving DecidableEq

def TimeWindow.make (start stop : Int) : Except PyError TimeWindow :=
  if h : WindowValid start stop then .ok ⟨start, stop, h⟩ else .error .validation

def FixedEvent.make (title : String) (start stop : Int) : Except PyError FixedEvent :=
  if h : TitleValid title ∧ WindowValid start stop then
    .ok ⟨⟨start, stop, h.2⟩, title, h.1⟩
  else .error .validation

/-- `PlanBlock(task_id=..., start=..., end=...)`, unlocked by default. -/
def PlanBlock.make (taskId : UUID) (start stop : Int) : Except PyError PlanBlock :=
  if h : WindowValid start stop then .ok ⟨⟨start, stop, h⟩, taskId, false⟩
  else .error .validation

theorem TimeWindow.make_ok {start stop : Int} {window : TimeWindow} :
    TimeWindow.make start stop = .ok window ↔
      window.start = start ∧ window.stop = stop := by
  unfold TimeWindow.make
  constructor
  · intro h
    split at h
    · cases h
      exact ⟨rfl, rfl⟩
    · contradiction
  · rintro ⟨rfl, rfl⟩
    rw [dif_pos window.windowValid]

theorem PlanBlock.make_ok {taskId : UUID} {start stop : Int} {block : PlanBlock}
    (h : PlanBlock.make taskId start stop = .ok block) :
    block.start = start ∧ block.stop = stop ∧ block.taskId = taskId ∧
      block.locked = false := by
  unfold PlanBlock.make at h
  split at h
  · cases h
    exact ⟨rfl, rfl, rfl, rfl⟩
  · contradiction

/-- `int((block.end - block.start) / MINUTE)`. -/
def TimeWindow.minutes (window : TimeWindow) : Int :=
  truncMinutes (window.stop - window.start)

/-- The sum of the minutes of several blocks. -/
def minutesOf (blocks : List PlanBlock) : Int :=
  (blocks.map (·.minutes)).sum

@[simp] theorem minutesOf_nil : minutesOf [] = 0 := rfl

@[simp] theorem minutesOf_cons (block : PlanBlock) (blocks : List PlanBlock) :
    minutesOf (block :: blocks) = block.minutes + minutesOf blocks := by
  simp [minutesOf]

@[simp] theorem minutesOf_append (xs ys : List PlanBlock) :
    minutesOf (xs ++ ys) = minutesOf xs + minutesOf ys := by
  simp [minutesOf]

theorem TimeWindow.minutes_pos (window : TimeWindow) : 0 < window.minutes := by
  obtain ⟨⟨_, hs⟩, ⟨_, he⟩, hlt⟩ := window.windowValid
  have whole : (window.stop - window.start) % minute = 0 := by
    unfold minute at hs he ⊢
    omega
  have exact := truncMinutes_mul whole
  unfold TimeWindow.minutes
  unfold minute at exact
  omega

theorem minutesOf_nonneg (blocks : List PlanBlock) : 0 ≤ minutesOf blocks := by
  induction blocks with
  | nil => simp
  | cons block blocks ih =>
      have hpos := block.minutes_pos
      simp only [minutesOf_cons]
      omega

theorem minutesOf_perm {xs ys : List PlanBlock} (h : xs.Perm ys) :
    minutesOf xs = minutesOf ys :=
  (h.map _).sum_eq

theorem minutesOf_le_of_sublist {xs ys : List PlanBlock} (h : ys.Sublist xs) :
    minutesOf ys ≤ minutesOf xs := by
  induction h with
  | slnil => exact Int.le_refl _
  | cons block _ ih =>
      have hpos := block.minutes_pos
      simp only [minutesOf_cons]
      omega
  | cons_cons block _ ih =>
      simp only [minutesOf_cons]
      omega

/-- `model_copy(update={"locked": True})`. -/
def PlanBlock.lock (block : PlanBlock) : PlanBlock := { block with locked := true }

/-- `PlanningWindow`; `startDate` is an ordinal between 2000-01-01 and
2100-12-24. -/
structure PlanningWindow where
  startDate : Int
  days : Int
  taskIds : List UUID
  availability : List TimeWindow
  fixedEvents : List FixedEvent
  planningValid : (730120 ≤ startDate ∧ startDate ≤ 767002) ∧
    (days = 1 ∨ days = 7) ∧ taskIds.Nodup ∧ taskIds.length ≤ 100 ∧
    availability.length ≤ 28 ∧ fixedEvents.length ≤ 100
deriving DecidableEq

structure PreviewRequest extends PlanningWindow where
  previousBlocks : List PlanBlock
  previousValid : previousBlocks.length ≤ 512 ∧
    ∀ block ∈ previousBlocks, block.taskId ∈ taskIds

/-- `PreviewRequest(**window.model_dump(...), previous_blocks=...)`. -/
def PreviewRequest.make (window : PlanningWindow) (previousBlocks : List PlanBlock) :
    Except PyError PreviewRequest :=
  if h : previousBlocks.length ≤ 512 ∧
      ∀ block ∈ previousBlocks, block.taskId ∈ window.taskIds then
    .ok ⟨window, previousBlocks, h⟩
  else .error .validation

inductive UnscheduledReason
  | deadlinePassed | noSlotFound | searchLimit | notScheduled
deriving DecidableEq, Repr

structure UnscheduledTask where
  taskId : UUID
  title : String
  remainingMinutes : Int
  reason : UnscheduledReason
  message : String
deriving DecidableEq, Repr

/-- `UnscheduledTask(...)`: `remaining_minutes` is at least one. -/
def UnscheduledTask.make (taskId : UUID) (title : String) (remainingMinutes : Int)
    (reason : UnscheduledReason) (message : String) : Except PyError UnscheduledTask :=
  if 1 ≤ remainingMinutes then .ok ⟨taskId, title, remainingMinutes, reason, message⟩
  else .error .validation

/-- The warning texts of `_Planner.warnings`. -/
inductive Warning
  | breakPreferenceNotMet
  | workloadPreferenceNotMet
  | unsplittableTaskExceedsFocusPreference
deriving DecidableEq, Repr

structure PlanPreview where
  horizon : TimeWindow
  timezone : String
  plannedAt : Int
  blocks : List PlanBlock
  fixedEvents : List FixedEvent
  unscheduled : List UnscheduledTask
  ignoredTaskIds : List UUID
  taskVersions : List (UUID × Nat)
  preferenceVersion : Nat
  warnings : List Warning
deriving DecidableEq

end SmartPlanner
