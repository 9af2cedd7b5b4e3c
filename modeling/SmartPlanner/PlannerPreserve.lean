import SmartPlanner.PlannerLocks

/-!
The movable half of `preserve_previous` and the state both halves leave: every
pending task holds either its locks alone or all of its previous blocks, the
latter only when they add up to its duration.
-/

namespace SmartPlanner

open Intervals Outcome Sorting

namespace Planner
variable {p : Planner}

/-- Clearing the minutes of one block keeps the others valid exactly when they
are apart from it. -/
theorem validBlock_fill (grid : p.Grid) {task : TaskRecord} {block other : PlanBlock}
    {mask : Mask} :
    p.validBlock task block (mask.fill (p.indices other.toTimeWindow).1
        (p.indices other.toTimeWindow).2 false) = true ↔
      p.validBlock task block mask = true ∧
      other.toTimeWindow.Apart block.toTimeWindow := by
  rw [validBlock_iff grid, validBlock_iff grid, ← indices_apart grid, apart_comm,
    apart_iff_no_common (indices_lt grid _) (indices_lt grid _)]
  simp only [Mask.fill_false_iff]
  constructor
  · rintro ⟨hl, hr, hm⟩
    exact ⟨⟨hl, hr, fun i h₁ h₂ => (hm i h₁ h₂).1⟩, fun i h₁ h₂ => (hm i h₁ h₂).2⟩
  · rintro ⟨⟨hl, hr, hm⟩, hapart⟩
    exact ⟨hl, hr, fun i h₁ h₂ => ⟨hm i h₁ h₂, hapart i h₁ h₂⟩⟩

theorem movableFits_iff (grid : p.Grid) {task : TaskRecord} {blocks : List PlanBlock}
    {mask : Mask} :
    p.movableFits task blocks mask = true ↔
      (∀ block ∈ blocks, p.validBlock task block mask = true) ∧ PairwiseApart blocks := by
  induction blocks generalizing mask with
  | nil => simp [movableFits, PairwiseApart]
  | cons block blocks ih =>
      simp only [movableFits, Bool.and_eq_true, ih, validBlock_fill grid,
        List.forall_mem_cons, PairwiseApart, List.pairwise_cons, and_assoc]
      refine and_congr_right fun _ => ?_
      rw [← and_assoc]
      refine and_congr_left fun _ => ?_
      exact forall₂_and

/-- The state when some tasks are done with the movable loop. -/
structure Preserved (p : Planner) (done : List TaskRecord) (state : PlannerState) : Prop where
  sound : p.Sound state
  untouched : ∀ task ∈ p.pending, task ∉ done →
    blocksOf state.blocks task.id = p.locks task
  held : ∀ task ∈ p.pending, blocksOf state.blocks task.id = p.locks task ∨
    blocksOf state.blocks task.id = p.locks task ++ p.movable task ∧
      minutesOf (p.previous task.id) = task.durationMinutes ∧
      (task.splittable = false → (p.previous task.id).length = 1)
  locks_kept : ∀ task ∈ p.pending, ∀ block ∈ p.locks task, block ∈ state.blocks
  same : state.unscheduled = []

theorem blocksOf_allLocks (grid : p.Grid) {task : TaskRecord} (ht : task ∈ p.pending) :
    blocksOf p.allLocks task.id = p.locks task := by
  unfold allLocks
  by_cases hprev : p.previous task.id = []
  · rw [locks_of_no_previous hprev]
    refine blocksOf_eq_nil fun block hb hid => ?_
    obtain ⟨other, ho, hb⟩ := List.mem_flatMap.mp hb
    have hother := (mem_previousTasks.mp ho).1
    have heq := grid.pending_unique hother ht ((locks_taskId hb).symm.trans hid)
    subst heq
    rw [locks_of_no_previous hprev] at hb
    simp at hb
  · obtain ⟨before, after, hsplit⟩ :=
      List.append_of_mem (mem_previousTasks.mpr ⟨ht, hprev⟩)
    have distinct := grid.previousTasks_nodup
    rw [hsplit, List.map_append, List.map_cons, List.nodup_append, List.nodup_cons] at distinct
    have outside : ∀ others : List TaskRecord, (∀ other ∈ others, other.id ≠ task.id) →
        blocksOf (others.flatMap p.locks) task.id = [] := by
      intro others hne
      refine blocksOf_eq_nil fun block hb hid => ?_
      obtain ⟨other, ho, hb⟩ := List.mem_flatMap.mp hb
      exact hne other ho ((locks_taskId hb).symm.trans hid)
    rw [hsplit, List.flatMap_append, List.flatMap_cons, blocksOf_append, blocksOf_append,
      outside before, outside after, blocksOf_eq_self fun block => locks_taskId]
    · simp
    · intro other ho heq
      exact distinct.2.1.1 (List.mem_map.mpr ⟨other, ho, heq⟩)
    · intro other ho heq
      exact distinct.2.2 other.id (List.mem_map_of_mem ho) task.id (by simp) heq

theorem preserved_locks (grid : p.Grid) {budget : Int} {state : PlannerState}
    (h : p.previousTasks.foldlM p.preserveLocks (p.initial budget) = .ok state) :
    p.Preserved [] state := by
  obtain ⟨⟨locksOk, apart⟩, rfl⟩ := (lockPhase_ok grid budget).mp h
  have sound : p.Sound (p.allLocks.foldl p.reserve (p.initial budget)) := by
    apply (sound_initial p budget).reserveAll
    · intro block hb
      obtain ⟨task, ht, hb⟩ := mem_allLocks.mp hb
      exact ⟨task, ht, (locks_taskId hb).symm, (locksOk task ht).2 block hb⟩
    · exact apart
  have blocks_eq : (p.allLocks.foldl p.reserve (p.initial budget)).blocks = p.allLocks := by
    simp [foldl_reserve, initial]
  refine ⟨sound, fun task ht _ => ?_, fun task ht => Or.inl ?_, fun task ht block hb => ?_, ?_⟩
  · rw [blocks_eq, blocksOf_allLocks grid ht]
  · rw [blocks_eq, blocksOf_allLocks grid ht]
  · rw [blocks_eq]
    exact mem_allLocks.mpr ⟨task, ht, hb⟩
  · simp [foldl_reserve, initial]

theorem Preserved.step (grid : p.Grid) {done : List TaskRecord} {state : PlannerState}
    (inv : p.Preserved done state) {task : TaskRecord} (ht : task ∈ p.pending)
    (fresh : task ∉ done) :
    p.Preserved (done ++ [task]) (p.preserveMovable state task) := by
  have unchanged : p.Preserved (done ++ [task]) state :=
    ⟨inv.sound, fun other ho hne => inv.untouched other ho (by simp_all), inv.held,
      inv.locks_kept, inv.same⟩
  unfold preserveMovable
  simp only
  split
  · exact unchanged
  · next total =>
      split
      · next hfits =>
          obtain ⟨valid, apartMovable⟩ := (movableFits_iff grid).mp hfits
          have valid' := fun block hb => (validBlock_sound grid inv.sound).mp (valid block hb)
          have sound : p.Sound ((p.movable task).foldl p.reserve state) := by
            apply inv.sound.reserveAll
            · intro block hb
              exact ⟨task, ht, (movable_taskId hb).symm, (valid' block hb).1⟩
            · refine List.pairwise_append.mpr ⟨inv.sound.apart, apartMovable, ?_⟩
              intro a ha b hb
              exact ((valid' b hb).2 a ha).symm
          have own : blocksOf ((p.movable task).foldl p.reserve state).blocks task.id =
              p.locks task ++ p.movable task := by
            rw [foldl_reserve, blocksOf_append, inv.untouched task ht fresh,
              blocksOf_eq_self fun block => movable_taskId]
          have foreign : ∀ other ∈ p.pending, other ≠ task →
              blocksOf ((p.movable task).foldl p.reserve state).blocks other.id =
                blocksOf state.blocks other.id := by
            intro other ho hne
            rw [foldl_reserve, blocksOf_append, @blocksOf_eq_nil (p.movable task),
              List.append_nil]
            intro block hb hid
            exact hne (grid.pending_unique ho ht (hid.symm.trans (movable_taskId hb)))
          refine ⟨sound, fun other ho hne => ?_, fun other ho => ?_,
            fun other ho block hb => ?_, ?_⟩
          · have hot : other ≠ task := by
              rintro rfl
              simp at hne
            rw [foreign other ho hot]
            exact inv.untouched other ho (by simp_all)
          · by_cases hot : other = task
            · subst hot
              refine Or.inr ⟨own, ?_⟩
              rw [not_or, not_and, not_not, not_not] at total
              exact total
            · rw [foreign other ho hot]
              exact inv.held other ho
          · rw [foldl_reserve]
            exact List.mem_append_left _ (inv.locks_kept other ho block hb)
          · simp [foldl_reserve, inv.same]
      · exact unchanged

theorem mem_ordered {task : TaskRecord} : task ∈ p.ordered ↔ task ∈ p.pending := by
  simp [ordered]

theorem Grid.ordered_nodup (grid : p.Grid) : p.ordered.Nodup :=
  ((sortBy_perm p.order p.pending).nodup_iff).mpr (List.Nodup.of_map _ grid.pending_nodup)

/-- The task of one round of a loop over `ordered`, and the tasks before it. -/
theorem Grid.ordered_split (grid : p.Grid) {before after : List TaskRecord}
    {task : TaskRecord} (h : p.ordered = before ++ task :: after) :
    (∀ other ∈ before, other ∈ p.pending) ∧ task ∈ p.pending ∧ task ∉ before := by
  refine ⟨fun other ho => ?_, ?_, fun hmem => ?_⟩
  · exact mem_ordered.mp (by simp [h, ho])
  · exact mem_ordered.mp (by simp [h])
  · have distinct := grid.ordered_nodup
    rw [h, List.nodup_append] at distinct
    exact distinct.2.2 task hmem task (by simp) rfl

/-- What `preserve_previous` leaves. -/
theorem preservePrevious_preserved (grid : p.Grid) {budget : Int} {state : PlannerState}
    (h : p.preservePrevious (p.initial budget) = .ok state) :
    p.LocksOk ∧ p.Preserved p.ordered state := by
  unfold preservePrevious at h
  simp only [bind_ok, pure_eq_ok, Except.ok.injEq] at h
  obtain ⟨locked, hlocks, rfl⟩ := h
  refine ⟨((lockPhase_ok grid budget).mp hlocks).1, ?_⟩
  apply foldl_inits (p.Preserved) (preserved_locks grid hlocks)
  intro before task after state hsplit inv
  obtain ⟨-, ht, fresh⟩ := grid.ordered_split hsplit
  exact inv.step grid ht fresh

/-- The phase fails only in the lock loop. -/
theorem preservePrevious_total (grid : p.Grid) (budget : Int) (h : p.LocksOk) :
    ∃ state, p.preservePrevious (p.initial budget) = .ok state := by
  have hlocks := (lockPhase_ok grid budget).mpr ⟨h, rfl⟩
  unfold preservePrevious
  rw [hlocks]
  exact ⟨_, rfl⟩

theorem Preserved.shareOk {done : List TaskRecord} {state : PlannerState}
    (inv : p.Preserved done state) (locksOk : p.LocksOk) {task : TaskRecord}
    (ht : task ∈ p.pending) : ShareOk task (blocksOf state.blocks task.id) := by
  rcases inv.held task ht with h | ⟨h, total, single⟩
  · rw [h]
    exact (locksOk.1 task ht).1
  · rw [h]
    apply ShareOk.perm (locks_append_movable_perm task).symm
    exact ⟨by omega, fun hs _ => ⟨single hs, total⟩⟩

/-- Preservation adds no blocks of its own. -/
theorem Preserved.mem_previousBlocks {done : List TaskRecord} {state : PlannerState}
    (inv : p.Preserved done state) {block : PlanBlock} (hb : block ∈ state.blocks) :
    block ∈ p.request.previousBlocks := by
  obtain ⟨task, ht, hid, -⟩ := inv.sound.placed block hb
  have hmem : block ∈ blocksOf state.blocks task.id := by
    simp [blocksOf, hb, hid]
  have hprev : block ∈ p.previous task.id := by
    rcases inv.held task ht with h | ⟨h, -⟩
    · rw [h] at hmem
      exact (mem_locks.mp hmem).1
    · rw [h] at hmem
      exact (locks_append_movable_perm task).mem_iff.mp hmem
  exact ((mem_previous ht).mp hprev).1

theorem Preserved.length_le {done : List TaskRecord} {state : PlannerState}
    (inv : p.Preserved done state) : state.blocks.length ≤ maxBlocks := by
  have hsub : state.blocks.Subperm p.request.previousBlocks :=
    List.subperm_of_subset inv.sound.apart.nodup fun block => inv.mem_previousBlocks
  have hle := hsub.length_le
  have hmax := p.request.previousValid.1
  unfold maxBlocks
  omega

end Planner

end SmartPlanner
