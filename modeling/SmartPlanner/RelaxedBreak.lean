import SmartPlanner.NoSlotFound
import SmartPlanner.NaiveSlot
import SmartPlanner.Library.Spacing

/-!
The rounds of the placement loop, and what becomes of a piece for which the
search gave up the break. Its neighbour stays in the busy list, and so does the
piece once its task is complete.
-/

namespace SmartPlanner

open Intervals Outcome Sorting

/-- The variables of the `while remaining` loop of `allocate_task`. -/
structure PieceLoop where
  remaining : Int
  additions : List PlanBlock
  busy : List Interval
  intervals : List Interval
  budget : Int

namespace Planner
variable {p : Planner}

def loopStart (p : Planner) (state : PlannerState) (task : TaskRecord) : PieceLoop :=
  ⟨state.missing task, [], state.busy, state.blocks.map fun block => p.indices block.toTimeWindow,
    state.budget⟩

/-- A round of the loop that adds a piece. -/
def AddsPiece (p : Planner) (task : TaskRecord) (placedBlocks : ℕ) (s : PieceLoop)
    (slot : Interval) (s' : PieceLoop) : Prop :=
  s.remaining ≠ 0 ∧ placedBlocks + s.additions.length < maxBlocks ∧
  ∃ block budget,
    p.findSlot task s.remaining s.busy (p.usage s.intervals) s.budget = .done (some slot) budget ∧
    PlanBlock.make task.id (p.start + slot.1 * minute)
      (p.start + (slot.1 + slot.2) * minute) = .ok block ∧
    s' = ⟨s.remaining - slot.2, s.additions ++ [block], s.busy ++ [(slot.1, slot.1 + slot.2)],
      s.intervals ++ [(slot.1, slot.1 + slot.2)], budget⟩

/-- Some rounds of the loop. -/
inductive LoopReaches (p : Planner) (task : TaskRecord) (placedBlocks : ℕ) (start : PieceLoop) :
    PieceLoop → Prop
  | start : LoopReaches p task placedBlocks start start
  | round {s slot s'} (reached : LoopReaches p task placedBlocks start s)
      (adds : p.AddsPiece task placedBlocks s slot s') :
      LoopReaches p task placedBlocks start s'

/-- The pass that keeps the break finds nothing, and the search goes on without. -/
def Relaxes (p : Planner) (task : TaskRecord) (s : PieceLoop) : Prop :=
  p.preferences.breakMinutes ≠ 0 ∧
  ∃ left, p.searchPause task s.remaining s.busy (p.usage s.intervals)
    p.preferences.breakMinutes s.budget = .done none left

/-- The loop from given variables on. -/
def runLoop (p : Planner) (task : TaskRecord) (placedBlocks rounds : ℕ) (s : PieceLoop) :
    Except PyError Placement :=
  p.placePieces task placedBlocks rounds s.remaining s.additions s.busy s.intervals s.budget

theorem AddsPiece.runLoop {task : TaskRecord} {placedBlocks : ℕ} {s s' : PieceLoop}
    {slot : Interval} (adds : p.AddsPiece task placedBlocks s slot s') (rounds : ℕ) :
    p.runLoop task placedBlocks (rounds + 1) s = p.runLoop task placedBlocks rounds s' := by
  obtain ⟨hne, hcap, block, budget, hslot, hmake, rfl⟩ := adds
  unfold Planner.runLoop
  rw [placePieces, if_neg hne, if_neg (Nat.not_le.mpr hcap), hslot]
  simp only [hmake]

theorem LoopReaches.runLoop {task : TaskRecord} {placedBlocks : ℕ} {start s : PieceLoop}
    (reached : p.LoopReaches task placedBlocks start s) :
    ∃ done, ∀ rounds,
      p.runLoop task placedBlocks (rounds + done) start = p.runLoop task placedBlocks rounds s := by
  induction reached with
  | start => exact ⟨0, fun _ => rfl⟩
  | round _ adds ih =>
      obtain ⟨done, h⟩ := ih
      refine ⟨done + 1, fun rounds => ?_⟩
      rw [← adds.runLoop rounds, ← h (rounds + 1), Nat.add_right_comm, Nat.add_assoc]

/-- Between the rounds the busy list is that of the state and the pieces. -/
structure LoopOk (p : Planner) (state : PlannerState) (s : PieceLoop) : Prop where
  remaining_nonneg : 0 ≤ s.remaining
  busy_eq : s.busy = state.busy ++ s.additions.map fun block => p.indices block.toTimeWindow

theorem LoopOk.busy_nonempty (grid : p.Grid) {state : PlannerState} (sound : p.Sound state)
    {s : PieceLoop} (ok : p.LoopOk state s) : ∀ interval ∈ s.busy, interval.1 < interval.2 := by
  rw [ok.busy_eq, List.forall_mem_append]
  refine ⟨sound.busy_nonempty grid, fun interval hi => ?_⟩
  obtain ⟨block, -, rfl⟩ := List.mem_map.mp hi
  exact indices_lt grid block.toTimeWindow

theorem LoopOk.step (grid : p.Grid) {state : PlannerState} (sound : p.Sound state)
    {task : TaskRecord} {placedBlocks : ℕ} {s s' : PieceLoop} {slot : Interval}
    (ok : p.LoopOk state s) (adds : p.AddsPiece task placedBlocks s slot s') :
    p.LoopOk state s' := by
  obtain ⟨hne, -, block, budget, hslot, hmake, rfl⟩ := adds
  have nonneg := ok.remaining_nonneg
  have slotOk := findSlot_ok (by omega) hslot
  have indices := (slotOk.block grid (ok.busy_nonempty grid sound) hmake).2.1
  have hle := slotOk.2.1
  refine ⟨by simp only; omega, ?_⟩
  simp only [ok.busy_eq, List.map_append, List.map_cons, List.map_nil, indices, List.append_assoc]

theorem LoopReaches.ok (grid : p.Grid) {state : PlannerState} (sound : p.Sound state)
    {task : TaskRecord} (nonneg : 0 ≤ state.missing task) {placedBlocks : ℕ} {s : PieceLoop}
    (reached : p.LoopReaches task placedBlocks (p.loopStart state task) s) : p.LoopOk state s := by
  induction reached with
  | start => exact ⟨nonneg, by simp [loopStart]⟩
  | round _ adds ih => exact ih.step grid sound adds

/-- A piece found without the break is too close to something busy. -/
theorem Relaxes.close (grid : p.Grid) {task : TaskRecord} {s s' : PieceLoop} {placedBlocks : ℕ}
    {slot : Interval} (nonneg : 0 ≤ s.remaining) (relaxes : p.Relaxes task s)
    (adds : p.AddsPiece task placedBlocks s slot s') :
    ∃ interval ∈ s.busy,
      distance interval (slot.1, slot.1 + slot.2) < p.preferences.breakMinutes := by
  obtain ⟨hne, -, block, budget, hslot, -, -⟩ := adds
  obtain ⟨hbreak, left, hpass⟩ := relaxes
  have hrem : 1 ≤ s.remaining := by omega
  obtain ⟨hpos, -, hwhole, hl, hr, hm⟩ := findSlot_ok hrem hslot
  have unsuitable : ¬ p.Suitable task s.remaining s.busy p.preferences.breakMinutes := by
    rw [suitable_iff grid hrem]
    have short := searchPause_short hpass
    omega
  have hvalid := p.preferences.valid.2.1.1
  by_contra far
  -- with the break kept, the slot would have been suitable
  have free : ∀ i, slot.1 ≤ i → i < slot.1 + slot.2 →
      p.FreeAt s.busy p.preferences.breakMinutes i := by
    intro i h₁ h₂
    refine ⟨((freeMask_iff grid _ _).mp (hm i h₁ h₂)).1, fun interval hi inside => ?_⟩
    refine far ⟨interval, hi, ?_⟩
    unfold distance
    simp only
    omega
  apply unsuitable
  unfold Suitable
  split
  · exact ⟨slot.1, hl, by omega, fun i h₁ h₂ => free i h₁ (by omega)⟩
  · next hs =>
      rw [← hwhole (by simpa using hs)]
      exact ⟨slot.1, hl, hr, free⟩

/-- A complete task keeps every piece its loop has added. -/
theorem LoopReaches.kept (grid : p.Grid) {state state' : PlannerState} (sound : p.Sound state)
    {task : TaskRecord} (nonneg : 0 ≤ state.missing task) {s : PieceLoop}
    (reached : p.LoopReaches task state.blocks.length (p.loopStart state task) s)
    (h : p.allocateTask state task = .ok state') (complete : state'.missing task = 0)
    (started : state.missing task ≠ 0) : ∃ more, state'.busy = s.busy ++ more := by
  have ok := reached.ok grid sound nonneg
  obtain ⟨placement, hplace⟩ : ∃ placement,
      p.placement state task (state.missing task).toNat = .ok placement :=
    placePieces_total grid task _ _ _ _ _ _ _ nonneg
  have step := allocateTask_eq started hplace
  rw [h] at step
  split at step
  · injection step with step
    obtain ⟨done, hrun⟩ := reached.runLoop
    have hrest : p.runLoop task state.blocks.length (state.missing task).toNat s =
        .ok placement := by
      rw [← hrun, ← hplace]
      exact placePieces_fuel (le_refl _) (Nat.le_add_right _ _) (Or.inl nonneg)
    obtain ⟨pieces, hadd, -⟩ := placePieces_ok grid ok.remaining_nonneg
      (ok.busy_nonempty grid sound) hrest
    refine ⟨pieces.map fun block => p.indices block.toTimeWindow, ?_⟩
    rw [step, foldl_reserve, hadd, ok.busy_eq]
    simp only [List.map_append, List.append_assoc]
  · rw [UnscheduledTask.make_ok.mpr ⟨by omega, rfl⟩] at step
    injection step with step
    rw [step] at complete
    exact absurd complete started

/-- A round of the allocation loop only adds to the busy list. -/
theorem allocateTask_busy {state state' : PlannerState} {task : TaskRecord}
    (h : p.allocateTask state task = .ok state') : ∃ more, state'.busy = state.busy ++ more := by
  unfold allocateTask at h
  simp only at h
  split at h
  · cases h
    exact ⟨[], by simp⟩
  · rw [bind_ok] at h
    obtain ⟨placement, -, h⟩ := h
    split at h
    · cases h
      exact ⟨_, by rw [foldl_reserve]⟩
    · simp only [bind_ok] at h
      obtain ⟨entry, -, h⟩ := h
      cases h
      exact ⟨[], by simp⟩

theorem foldlM_busy {tasks : List TaskRecord} {state state' : PlannerState}
    (h : tasks.foldlM p.allocateTask state = .ok state') :
    ∃ more, state'.busy = state.busy ++ more := by
  refine foldlM_inits (fun _ s => ∃ more, s.busy = state.busy ++ more) ⟨[], by simp⟩ ?_ h
  rintro _ task _ s s' - ⟨more, hs⟩ hstep
  obtain ⟨more', hs'⟩ := allocateTask_busy hstep
  exact ⟨more ++ more', by rw [hs', hs, List.append_assoc]⟩

end Planner

end SmartPlanner
