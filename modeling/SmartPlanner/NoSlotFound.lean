import SmartPlanner.PlannerRoom
import SmartPlanner.PreviewSound

/-!
The reason `no_slot_found`. A call of `allocate_task` within its budget places
all that is missing of a task exactly when the layout it starts from has room
for it: pieces may shrink, keep their distance or give it up, but they never
strand a free minute of a splittable task.
-/

namespace SmartPlanner

open Intervals Outcome Sorting

/-- The minutes of a task that a state does not place. -/
def PlannerState.missing (state : PlannerState) (task : TaskRecord) : Int :=
  task.durationMinutes - Planner.placedMinutes state task.id

namespace Planner
variable {p : Planner}

/-- The placement loop of `allocate_task`, cut off after some rounds. -/
def placement (p : Planner) (state : PlannerState) (task : TaskRecord) (rounds : Nat) :
    Except PyError Placement :=
  p.placePieces task state.blocks.length rounds (state.missing task) [] state.busy
    (state.blocks.map fun block => p.indices block.toTimeWindow) state.budget

/-- `build_preview` calls `allocate_task` on this state for this task. -/
def Allocates (p : Planner) (searchBudget : Int) (state : PlannerState) (task : TaskRecord) :
    Prop :=
  ∃ preserved before after, p.preservePrevious (p.initial searchBudget) = .ok preserved ∧
    p.ordered = before ++ task :: after ∧ before.foldlM p.allocateTask preserved = .ok state

/-- Enough free minutes for a splittable task, and a free run that is long enough
for any other. -/
def HasRoom (p : Planner) (task : TaskRecord) (missing : Int) (busy : List Interval) : Prop :=
  if task.splittable then missing ≤ (p.freeMinutes task busy).card
  else ∃ length, missing ≤ length ∧ p.FreeRun task length busy

theorem hasRoom_iff {task : TaskRecord} {missing : Int} {busy : List Interval} :
    p.HasRoom task missing busy ↔ ¬ p.NoRoom task missing busy := by
  unfold HasRoom NoRoom
  split
  · exact not_lt.symm
  · rw [not_not]
    constructor
    · rintro ⟨length, hle, start, hl, hr, hm⟩
      exact ⟨start, hl, by omega, fun i h₁ h₂ => hm i h₁ (by omega)⟩
    · exact fun h => ⟨missing, le_refl _, h⟩

/-- The states of the allocation loop are those of its invariant. -/
theorem Allocates.allocated (grid : p.Grid) {searchBudget : Int} {state : PlannerState}
    {task : TaskRecord} (h : p.Allocates searchBudget state task) :
    task ∈ p.pending ∧ ∃ done, p.Allocated done state := by
  obtain ⟨preserved, before, after, hpreserve, hsplit, hrun⟩ := h
  obtain ⟨visited, ht, -⟩ := grid.ordered_split hsplit
  have distinct := grid.ordered_nodup
  rw [hsplit, List.nodup_append] at distinct
  refine ⟨ht, before, foldlM_inits (p.Allocated) (allocated_start grid hpreserve) ?_ hrun⟩
  intro earlier other later state state' hbefore inv hstep
  have fresh : other ∉ earlier := by
    have hnodup := distinct.1
    rw [hbefore, List.nodup_append] at hnodup
    exact fun hmem => hnodup.2.2 other hmem other (by simp) rfl
  exact inv.step grid (fun earlier' he => visited earlier' (by simp [hbefore, he]))
    (visited other (by simp [hbefore])) fresh hstep

/-- What a call of `allocate_task` did with the minutes a state was missing. -/
structure PlacedExactly (p : Planner) (state : PlannerState) (task : TaskRecord)
    (placement : Placement) (state' : PlannerState) : Prop where
  complete_iff : placement.limited = false →
    (state'.missing task = 0 ↔ p.HasRoom task (state.missing task) state.busy)
  rollback : state'.missing task ≠ 0 → state'.blocks = state.blocks ∧ state'.busy = state.busy
  reason : ∀ entry, state'.unscheduled = state.unscheduled ++ [entry] →
    entry.reason = .noSlotFound → ¬ p.HasRoom task (state.missing task) state.busy

theorem missing_append {state state' : PlannerState} {task : TaskRecord}
    {pieces : List PlanBlock} (h : state'.blocks = state.blocks ++ pieces)
    (own : ∀ piece ∈ pieces, piece.taskId = task.id) :
    state'.missing task = state.missing task - minutesOf pieces := by
  have hpieces : pieces.filter (·.taskId = task.id) = pieces :=
    List.filter_eq_self.mpr fun piece hp => decide_eq_true (own piece hp)
  simp only [PlannerState.missing, placedMinutes, h, List.filter_append, hpieces,
    minutesOf_append]
  omega

/-- What `allocate_task` makes of the placement its loop returns. -/
theorem allocateTask_eq {state : PlannerState} {task : TaskRecord} {placement : Placement}
    (missing : state.missing task ≠ 0)
    (h : p.placement state task (state.missing task).toNat = .ok placement) :
    p.allocateTask state task =
      if placement.remaining = 0 then
        .ok (placement.additions.foldl p.reserve { state with budget := placement.budget })
      else do
        let entry ← UnscheduledTask.make task.id task.title (state.missing task)
          (p.unscheduledReason task placement.limited)
          (p.unscheduledReason task placement.limited).message
        return { state with
          budget := placement.budget, unscheduled := state.unscheduled ++ [entry] } := by
  unfold PlannerState.missing at missing h
  unfold Planner.placement PlannerState.missing at h
  unfold allocateTask
  simp only [if_neg missing, h]
  rfl

theorem unscheduledReason_noSlotFound {task : TaskRecord} {limited : Bool}
    (h : p.unscheduledReason task limited = .noSlotFound) : limited = false := by
  unfold unscheduledReason at h
  split at h
  · contradiction
  · cases limited with
    | false => rfl
    | true => simp at h

theorem allocateTask_placed (grid : p.Grid) {done : List TaskRecord} {state : PlannerState}
    (inv : p.Allocated done state) {task : TaskRecord} (missing : 0 < state.missing task) :
    ∃ placement state', p.placement state task (state.missing task).toNat = .ok placement ∧
      p.allocateTask state task = .ok state' ∧ p.PlacedExactly state task placement state' := by
  have nonneg := le_of_lt missing
  obtain ⟨placement, hplace⟩ : ∃ placement,
      p.placement state task (state.missing task).toNat = .ok placement :=
    placePieces_total grid task _ _ _ _ _ _ _ nonneg
  obtain ⟨pieces, hadd, ok, -⟩ := placePieces_ok grid nonneg (inv.sound.busy_nonempty grid) hplace
  rw [List.nil_append] at hadd
  have room : placement.limited = false →
      (placement.remaining = 0 ↔ p.HasRoom task (state.missing task) state.busy) := by
    intro unlimited
    rw [hasRoom_iff]
    constructor
    · exact fun hdone noRoom => placePieces_noRoom grid missing noRoom hplace hdone
    · intro room
      by_contra stuck
      exact room (placePieces_stuck grid nonneg (le_refl _) hplace unlimited stuck)
  have step := allocateTask_eq (ne_of_gt missing) hplace
  split at step
  · next hdone =>
      have blocks_eq : (placement.additions.foldl p.reserve
          { state with budget := placement.budget }).blocks = state.blocks ++ pieces := by
        rw [hadd, foldl_reserve]
      have zero : (placement.additions.foldl p.reserve
          { state with budget := placement.budget }).missing task = 0 := by
        have hminutes := ok.minutes_eq
        rw [missing_append blocks_eq fun piece hp => (ok.fits piece hp).1]
        omega
      refine ⟨placement, _, hplace, step, fun unlimited => ?_, fun left => absurd zero left, ?_⟩
      · exact ⟨fun _ => (room unlimited).mp hdone, fun _ => zero⟩
      · intro entry hentry
        rw [foldl_reserve] at hentry
        simp at hentry
  · next left =>
      rw [UnscheduledTask.make_ok.mpr ⟨missing, rfl⟩] at step
      refine ⟨placement, _, hplace, step, fun unlimited => ?_, fun _ => ⟨rfl, rfl⟩, ?_⟩
      · rw [← room unlimited]
        exact ⟨fun zero => absurd zero (ne_of_gt missing), fun done => absurd done left⟩
      · intro entry hentry hreason
        obtain rfl := List.singleton_inj.mp (List.append_cancel_left hentry)
        rw [← room (unscheduledReason_noSlotFound hreason)]
        exact left

/-- A call of `allocate_task` on a state that `build_preview` reaches, with
minutes still missing, returns; within the budget it completes the task exactly
when there is room for it, and it adds nothing to the layout otherwise. The loop
stops on every state, after at most one piece a minute. -/
theorem allocateTask_exact (p : Planner) (state : PlannerState) (task : TaskRecord) :
    (∀ rounds, max 1 (state.missing task).toNat ≤ rounds → p.placement state task rounds =
      p.placement state task (max 1 (state.missing task).toNat)) ∧
    (∀ rounds placement, p.placement state task rounds = .ok placement →
      placement.additions.length ≤ (state.missing task).toNat) ∧
    ∀ request tasks preferences zone now searchBudget,
      Planner.init request tasks preferences zone now = .ok p →
      p.Allocates searchBudget state task → 0 < state.missing task →
      ∃ placement state', p.placement state task (state.missing task).toNat = .ok placement ∧
        p.allocateTask state task = .ok state' ∧
        p.PlacedExactly state task placement state' := by
  refine ⟨fun rounds enough => placePieces_fuel (by omega) (by omega) (Or.inr (by omega)),
    fun rounds placement h => ?_, ?_⟩
  · simpa using placePieces_length h
  · intro request tasks preferences zone now searchBudget hinit reached missing
    have grid := init_grid hinit
    obtain ⟨-, done, inv⟩ := reached.allocated grid
    exact allocateTask_placed grid inv missing

/-- The half hour of the reading task finds its place after the locked essay and
the lecture. -/
theorem allocateTask_exact_lecture :
    ∃ (p : Planner) (state : PlannerState),
      Planner.init lectureRequest [essay, reading] PreferenceValues.default Zone.utc
        (lectureTime 480) = .ok p ∧
      p.Allocates 250000 state reading ∧ state.missing reading = 30 ∧
      ∃ placement state', p.placement state reading 30 = .ok placement ∧
        placement.limited = false ∧ p.allocateTask state reading = .ok state' ∧
        state'.missing reading = 0 ∧ p.HasRoom reading 30 state.busy := by
  have run : okAnd (Planner.init lectureRequest [essay, reading] PreferenceValues.default Zone.utc
      (lectureTime 480)) (fun p => okAnd (p.preservePrevious (p.initial 250000)) fun state =>
        okAnd (p.placement state reading 30) fun placement =>
          okAnd (p.allocateTask state reading) fun state' =>
            decide (p.ordered = [] ++ reading :: [essay]) &&
            decide (state.missing reading = 30) && !placement.limited &&
            decide (state'.missing reading = 0)) = true := by
    decide +kernel
  obtain ⟨p, hinit, run⟩ := exists_of_okAnd run
  obtain ⟨state, hpreserve, run⟩ := exists_of_okAnd run
  obtain ⟨placement, hplace, run⟩ := exists_of_okAnd run
  obtain ⟨state', hstep, run⟩ := exists_of_okAnd run
  simp only [Bool.and_eq_true, Bool.not_eq_true', decide_eq_true_eq] at run
  obtain ⟨⟨⟨hsplit, missing⟩, unlimited⟩, complete⟩ := run
  have reached : p.Allocates 250000 state reading := ⟨state, [], [essay], hpreserve, hsplit, rfl⟩
  have exactly := (allocateTask_exact p state reading).2.2 _ _ _ _ _ _ hinit reached (by omega)
  rw [missing, show Int.toNat 30 = 30 from rfl, hplace, hstep] at exactly
  obtain ⟨_, _, ⟨⟩, ⟨⟩, exactly⟩ := exactly
  exact ⟨p, state, hinit, reached, missing, placement, state', hplace, unlimited, hstep, complete,
    missing ▸ (exactly.complete_iff unlimited).mp complete⟩

end Planner

end SmartPlanner
