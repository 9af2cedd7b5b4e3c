import SmartPlanner.PreviewSound

/-!
The reason `deadline_passed`. `bounds` clamps both ends to the horizon, so the
comparison behind the reason also holds for a task that can only start at the
end of the horizon or later, however late its deadline is. Apart from such tasks
the reason is truthful.
-/

namespace SmartPlanner

open Intervals Outcome Sorting

/-- An instant rounded up, and down, to the minute. -/
def roundUp (t : Int) : Int := ceilMinutes t * minute

def roundDown (t : Int) : Int := floorMinutes t * minute

/-- The first minute at which a task could start at all. -/
def firstMinute (zone : Zone) (request : PreviewRequest) (now : Int) (task : TaskRecord) : Int :=
  let opening := max (zone.dayStart request.startDate) (roundUp now)
  match task.earliestStart with
  | some earliest => max opening (roundUp earliest)
  | none => opening

/-- The entries with the reason `deadline_passed` tell the truth. -/
def DeadlinesTruthful (zone : Zone) (request : PreviewRequest) (tasks : List TaskRecord)
    (now : Int) (preview : PlanPreview) : Prop :=
  ∀ entry ∈ preview.unscheduled, entry.reason = .deadlinePassed →
    ∃ task ∈ tasks, task.id = entry.taskId ∧ ∃ deadline ∈ task.deadline,
      roundDown deadline ≤ firstMinute zone request now task

/-- The task opens at the end of the horizon or later, and has time left after
that. -/
def OpensLater (zone : Zone) (request : PreviewRequest) (now : Int) (task : TaskRecord) : Prop :=
  zone.dayStart (request.startDate + request.days) ≤ firstMinute zone request now task ∧
  ∃ deadline ∈ task.deadline, firstMinute zone request now task < roundDown deadline

section
variable {start : Int} (whole : start % minute = 0)
include whole

theorem roundUp_eq (t : Int) : roundUp t = start + ceilMinutes (t - start) * minute := by
  unfold roundUp ceilMinutes
  unfold minute at whole ⊢
  omega

theorem roundDown_eq (t : Int) : roundDown t = start + floorMinutes (t - start) * minute := by
  unfold roundDown floorMinutes
  unfold minute at whole ⊢
  omega

end

namespace Planner
variable {p : Planner}

/-- What a round of the allocation loop adds to the unscheduled entries. -/
theorem allocateTask_unscheduled {state state' : PlannerState} {task : TaskRecord}
    (h : p.allocateTask state task = .ok state') :
    state'.unscheduled = state.unscheduled ∨
    ∃ entry limited, state'.unscheduled = state.unscheduled ++ [entry] ∧
      entry.taskId = task.id ∧ entry.reason = p.unscheduledReason task limited := by
  unfold allocateTask at h
  simp only at h
  split at h
  · cases h
    exact Or.inl rfl
  · rw [bind_ok] at h
    obtain ⟨placement, -, h⟩ := h
    split at h
    · cases h
      exact Or.inl (by rw [foldl_reserve])
    · simp only [bind_ok, UnscheduledTask.make_ok] at h
      obtain ⟨entry, ⟨-, rfl⟩, h⟩ := h
      cases h
      exact Or.inr ⟨_, placement.limited, rfl, rfl, rfl⟩

/-- Every entry gives the reason of its task. -/
def Explained (p : Planner) (state : PlannerState) : Prop :=
  ∀ entry ∈ state.unscheduled, ∃ task ∈ p.pending, task.id = entry.taskId ∧
    ∃ limited, entry.reason = p.unscheduledReason task limited

theorem Explained.step {state state' : PlannerState} (inv : p.Explained state)
    {task : TaskRecord} (ht : task ∈ p.pending) (h : p.allocateTask state task = .ok state') :
    p.Explained state' := by
  unfold Explained
  rcases allocateTask_unscheduled h with same | ⟨entry, limited, added, hid, hreason⟩
  · rw [same]
    exact inv
  · rw [added, List.forall_mem_append, List.forall_mem_singleton]
    exact ⟨inv, task, ht, hid.symm, limited, hreason⟩

theorem phases_explained (grid : p.Grid) {budget : Int} {state state' : PlannerState}
    (hpreserve : p.preservePrevious (p.initial budget) = .ok state)
    (hallocate : p.ordered.foldlM p.allocateTask state = .ok state') : p.Explained state' := by
  refine foldlM_inits (fun _ => p.Explained) ?_ ?_ hallocate
  · rw [Explained, (preservePrevious_preserved grid hpreserve).2.same]
    simp
  · intro before task after state state' hsplit inv hstep
    exact inv.step (grid.ordered_split hsplit).2.1 hstep

theorem unscheduledReason_deadlinePassed {task : TaskRecord} {limited : Bool} :
    p.unscheduledReason task limited = .deadlinePassed ↔
      task.deadline.isSome ∧ (p.bounds task).2 ≤ (p.bounds task).1 := by
  unfold unscheduledReason
  split
  · next hempty => simp [hempty]
  · next hopen => cases limited <;> simp [hopen]

/-- A task with empty bounds holds no block of a sound state. -/
theorem Sound.blocksOf_eq_nil {state : PlannerState} (grid : p.Grid) (sound : p.Sound state)
    {task : TaskRecord} (ht : task ∈ p.pending)
    (empty : (p.bounds task).2 ≤ (p.bounds task).1) : blocksOf state.blocks task.id = [] := by
  refine SmartPlanner.blocksOf_eq_nil fun block hb hid => ?_
  obtain ⟨other, ho, hother, fits⟩ := sound.placed block hb
  obtain rfl := grid.pending_unique ho ht (hother.trans hid)
  have hlt := indices_lt grid block.toTimeWindow
  have hl := fits.1
  have hr := fits.2.1
  omega

/-- After the allocation phase a task with empty bounds is listed. -/
theorem Allocated.listed (grid : p.Grid) {state : PlannerState}
    (inv : p.Allocated p.ordered state) {task : TaskRecord} (ht : task ∈ p.pending)
    (empty : (p.bounds task).2 ≤ (p.bounds task).1) :
    ∃ entry ∈ state.unscheduled, entry.taskId = task.id := by
  have hshort : shortfall state.blocks task = some (task.id, task.durationMinutes) := by
    have hpos := task.duration_pos
    simp only [shortfall, inv.sound.blocksOf_eq_nil grid ht empty, minutesOf_nil]
    rw [if_pos (by omega), Int.sub_zero]
  have hmem : (task.id, task.durationMinutes) ∈ state.unscheduled.map (·.amount) := by
    rw [inv.accounted, List.mem_filterMap]
    exact ⟨task, mem_ordered.mpr ht, hshort⟩
  obtain ⟨entry, hentry, hamount⟩ := List.mem_map.mp hmem
  exact ⟨entry, hentry, congrArg Prod.fst hamount⟩

/-- Clamping to the horizon keeps whether a minute is reached, but that every
minute from its end on is. -/
theorem clamped_le_iff {size due opening earliest : Int} (positive : 0 < size) :
    max 0 (min size (min size due)) ≤
        max 0 (min size (max (min size (max 0 opening)) earliest)) ↔
      due ≤ max (max 0 opening) earliest ∨ size ≤ max (max 0 opening) earliest := by
  omega

theorem le_latest_iff {start due opening earliest : Int} :
    start + due * minute ≤ max (max start (start + opening * minute)) (start + earliest * minute) ↔
      due ≤ max (max 0 opening) earliest := by
  unfold minute
  omega

/-- A task with a deadline has empty bounds when the deadline is over by its first
minute, and also when the horizon is. -/
theorem bounds_empty_iff {request : PreviewRequest} {tasks : List TaskRecord}
    {preferences : PreferenceValues} {zone : Zone} {now : Int}
    (hinit : Planner.init request tasks preferences zone now = .ok p) {task : TaskRecord}
    {deadline : Int} (due : task.deadline = some deadline) :
    (p.bounds task).2 ≤ (p.bounds task).1 ↔
      roundDown deadline ≤ firstMinute zone request now task ∨
      zone.dayStart (request.startDate + request.days) ≤ firstMinute zone request now task := by
  have grid := init_grid hinit
  have hfloor : p.floor = min p.size (max 0 (ceilMinutes (now - p.start))) := by
    obtain ⟨-, -, -, opened, events, available, -, -, rfl⟩ := init_ok.mp hinit
    rfl
  obtain ⟨-, -, -, -, -, hstart, hstop⟩ := init_fields hinit
  have hsize := grid.size_pos
  have hend := grid.stop_eq
  rw [hstop] at hend
  have hdown := roundDown_eq grid.wholeStart deadline
  have hup := roundUp_eq grid.wholeStart now
  unfold firstMinute bounds
  rw [due, hend, hdown, ← hstart, hfloor, hup]
  cases task.earliestStart with
  | none =>
      have clamped := @clamped_le_iff p.size (floorMinutes (deadline - p.start))
        (ceilMinutes (now - p.start)) 0 hsize
      have opening : max p.start (p.start + ceilMinutes (now - p.start) * minute) =
          max (max p.start (p.start + ceilMinutes (now - p.start) * minute))
            (p.start + 0 * minute) := by
        rw [Int.zero_mul, Int.add_zero, max_eq_left (le_max_left _ _)]
      rw [opening, le_latest_iff, le_latest_iff]
      exact clamped
  | some earliest =>
      simp only
      rw [roundUp_eq grid.wholeStart earliest, le_latest_iff, le_latest_iff]
      exact clamped_le_iff hsize

end Planner

/-- The entries with the reason `deadline_passed` are those of the pending tasks
with a deadline and no minute between their bounds. -/
theorem buildPreview_reasons {zoneInfo : String → Zone} {request : PreviewRequest}
    {tasks : List TaskRecord} {preferences : PreferenceValues} {timezoneName : String}
    {now : Int} {preferenceVersion : Nat} {searchBudget : Int} {preview : PlanPreview}
    (h : buildPreview zoneInfo request tasks preferences timezoneName now preferenceVersion
      searchBudget = .ok preview) :
    ∃ p : Planner,
      Planner.init request tasks preferences (zoneInfo timezoneName) now = .ok p ∧
      (∀ entry ∈ preview.unscheduled, entry.reason = .deadlinePassed →
        ∃ task ∈ p.pending, task.id = entry.taskId ∧ task.deadline.isSome ∧
          (p.bounds task).2 ≤ (p.bounds task).1) ∧
      ∀ task ∈ p.pending, task.deadline.isSome → (p.bounds task).2 ≤ (p.bounds task).1 →
        ∃ entry ∈ preview.unscheduled, entry.taskId = task.id ∧ entry.reason = .deadlinePassed := by
  unfold buildPreview at h
  simp only [bind_ok, pure_eq_ok, Except.ok.injEq] at h
  obtain ⟨p, hinit, state, hpreserve, state', hallocate, horizon, -, rfl⟩ := h
  have grid := Planner.init_grid hinit
  have explained := Planner.phases_explained grid hpreserve hallocate
  refine ⟨p, hinit, fun entry hentry hreason => ?_, fun task ht due empty => ?_⟩
  · obtain ⟨task, ht, hid, limited, heq⟩ := explained entry hentry
    rw [hreason] at heq
    exact ⟨task, ht, hid, Planner.unscheduledReason_deadlinePassed.mp heq.symm⟩
  · obtain ⟨entry, hentry, hid⟩ :=
      (Planner.phases_allocated grid hpreserve hallocate).listed grid ht empty
    obtain ⟨other, ho, hother, limited, heq⟩ := explained entry hentry
    obtain rfl := grid.pending_unique ho ht (hother.trans hid)
    exact ⟨entry, hentry, hid,
      heq.trans (Planner.unscheduledReason_deadlinePassed.mpr ⟨due, empty⟩)⟩

/-- The reason is truthful in a preview exactly when no pending task with time
left opens at the end of the horizon or later. -/
theorem deadlinesTruthful_iff {zoneInfo : String → Zone} {request : PreviewRequest}
    {tasks : List TaskRecord} {preferences : PreferenceValues} {timezoneName : String}
    {now : Int} {preferenceVersion : Nat} {searchBudget : Int} {preview : PlanPreview}
    (h : buildPreview zoneInfo request tasks preferences timezoneName now preferenceVersion
      searchBudget = .ok preview) :
    DeadlinesTruthful (zoneInfo timezoneName) request tasks now preview ↔
      ∀ task ∈ tasks, task.status = .pending →
        ¬ OpensLater (zoneInfo timezoneName) request now task := by
  obtain ⟨p, hinit, listed, complete⟩ := buildPreview_reasons h
  have grid := Planner.init_grid hinit
  obtain ⟨-, -, -, -, rfl, -⟩ := Planner.init_fields hinit
  constructor
  · rintro truthful task ht hpending ⟨later, deadline, due, after⟩
    have mem := Planner.mem_pending.mpr ⟨ht, hpending⟩
    obtain ⟨entry, hentry, hid, hreason⟩ := complete task mem (by simp [Option.mem_def.mp due])
      ((Planner.bounds_empty_iff hinit due).mpr (Or.inr later))
    obtain ⟨other, ho, hother, deadline', due', passed⟩ := truthful entry hentry hreason
    obtain rfl := List.inj_on_of_nodup_map grid.snapshot.1 ho ht (hother.trans hid)
    obtain rfl : deadline = deadline' := Option.some_inj.mp (due.symm.trans due')
    omega
  · intro onTime entry hentry hreason
    obtain ⟨task, mem, hid, due, empty⟩ := listed entry hentry hreason
    obtain ⟨deadline, due⟩ := Option.isSome_iff_exists.mp due
    obtain ⟨ht, hpending⟩ := Planner.mem_pending.mp mem
    refine ⟨task, ht, hid, deadline, due, ?_⟩
    rcases (Planner.bounds_empty_iff hinit due).mp empty with passed | later
    · exact passed
    · by_contra after
      exact onTime task ht hpending ⟨later, deadline, due, by omega⟩

/-- A reading that opens a week after the planned Monday and is due the day
after. -/
def nextReading : TaskRecord where
  title := "reading"
  description := ""
  durationMinutes := 30
  priority := 5
  splittable := true
  preferredPeriod := .morning
  earliestStart := some (lectureTime 10080)
  deadline := some (lectureTime 11520)
  id := 2
  userId := 1
  clientRequestId := 2
  status := .pending
  version := 1
  createdAt := 0
  updatedAt := 0
  recurrenceId := none
  occurrenceDate := none
  valid := by decide

/-- Its Monday preview says that its deadline is over. -/
theorem deadlinesTruthful_nextReading :
    ∃ preview, buildPreview (fun _ => Zone.utc) lectureRequest [essay, nextReading]
        PreferenceValues.default "UTC" (lectureTime 480) 1 250000 = .ok preview ∧
      (∃ entry ∈ preview.unscheduled, entry.taskId = nextReading.id ∧
        entry.reason = .deadlinePassed) ∧
      ¬ DeadlinesTruthful Zone.utc lectureRequest [essay, nextReading] (lectureTime 480)
        preview := by
  have returned : okAnd (buildPreview (fun _ => Zone.utc) lectureRequest [essay, nextReading]
      PreferenceValues.default "UTC" (lectureTime 480) 1 250000) (fun preview =>
        decide (preview.unscheduled.map (fun entry => (entry.taskId, entry.reason)) =
          [(2, .deadlinePassed)])) = true := by
    decide +kernel
  obtain ⟨preview, h, listed⟩ := exists_of_okAnd returned
  rw [decide_eq_true_eq] at listed
  obtain ⟨entry, hentry, heq⟩ := List.mem_map.mp (listed ▸ List.mem_singleton_self _ :
    ((2 : UUID), UnscheduledReason.deadlinePassed) ∈
      preview.unscheduled.map fun entry => (entry.taskId, entry.reason))
  simp only [Prod.mk.injEq] at heq
  refine ⟨preview, h, ⟨entry, hentry, heq.1, heq.2⟩, fun truthful => ?_⟩
  obtain ⟨task, ht, hid, deadline, due, passed⟩ := truthful entry hentry heq.2
  rw [heq.1] at hid
  obtain rfl : task = nextReading := by
    simp only [List.mem_cons, List.not_mem_nil, or_false] at ht
    rcases ht with rfl | rfl
    · exact absurd hid (by decide)
    · rfl
  obtain rfl : deadline = lectureTime 11520 := by simpa [nextReading] using due.symm
  exact absurd passed (by decide)

theorem deadlinesTruthful_iff_lecture :
    ∃ preview, buildPreview (fun _ => Zone.utc) lectureRequest [essay, reading]
        PreferenceValues.default "UTC" (lectureTime 480) 1 250000 = .ok preview ∧
      DeadlinesTruthful Zone.utc lectureRequest [essay, reading] (lectureTime 480) preview := by
  have returned : okAnd (buildPreview (fun _ => Zone.utc) lectureRequest [essay, reading]
      PreferenceValues.default "UTC" (lectureTime 480) 1 250000) (fun _ => true) = true := by
    decide +kernel
  obtain ⟨preview, h, -⟩ := exists_of_okAnd returned
  refine ⟨preview, h, (deadlinesTruthful_iff h).mpr ?_⟩
  simp only [List.forall_mem_cons, List.not_mem_nil, false_implies, implies_true, and_true]
  refine ⟨fun _ later => ?_, fun _ later => ?_⟩
  · exact absurd later.1 (by decide)
  · exact absurd later.1 (by decide)

end SmartPlanner
