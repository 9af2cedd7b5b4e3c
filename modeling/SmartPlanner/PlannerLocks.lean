import SmartPlanner.PlannerFits
import SmartPlanner.Scheduler

/-!
The preservation phase of the planner. `Planner.Sound` is the invariant of the
busy list that every phase keeps; the lock loop accepts exactly the locks that
fit their tasks and are pairwise apart, and the movable loop adds all or none of
a task's movable blocks.
-/

namespace SmartPlanner

open Intervals Outcome Sorting

/-- The blocks of one task. -/
def blocksOf (blocks : List PlanBlock) (taskId : UUID) : List PlanBlock :=
  blocks.filter (·.taskId = taskId)

@[simp] theorem blocksOf_append (xs ys : List PlanBlock) (taskId : UUID) :
    blocksOf (xs ++ ys) taskId = blocksOf xs taskId ++ blocksOf ys taskId := by
  simp [blocksOf]

theorem mem_blocksOf {blocks : List PlanBlock} {taskId : UUID} {block : PlanBlock} :
    block ∈ blocksOf blocks taskId ↔ block ∈ blocks ∧ block.taskId = taskId := by
  simp [blocksOf]

theorem blocksOf_eq_self {blocks : List PlanBlock} {taskId : UUID}
    (h : ∀ block ∈ blocks, block.taskId = taskId) : blocksOf blocks taskId = blocks := by
  unfold blocksOf
  exact List.filter_eq_self.mpr fun block hb => by simp [h block hb]

theorem blocksOf_eq_nil {blocks : List PlanBlock} {taskId : UUID}
    (h : ∀ block ∈ blocks, block.taskId ≠ taskId) : blocksOf blocks taskId = [] := by
  unfold blocksOf
  exact List.filter_eq_nil_iff.mpr fun block hb => by simp [h block hb]

/-- The locked blocks of pending tasks. -/
def lockedBlocks (blocks : List PlanBlock) (tasks : List TaskRecord) : List PlanBlock :=
  blocks.filter fun block =>
    block.locked && tasks.any fun task => task.status = .pending && task.id = block.taskId

/-- The blocks a task may hold: no more minutes than its duration, and a single
piece of the whole duration when it must not be split. -/
def ShareOk (task : TaskRecord) (blocks : List PlanBlock) : Prop :=
  minutesOf blocks ≤ task.durationMinutes ∧
  (task.splittable = false → blocks ≠ [] →
    blocks.length = 1 ∧ minutesOf blocks = task.durationMinutes)

theorem ShareOk.perm {task : TaskRecord} {xs ys : List PlanBlock} (perm : xs.Perm ys)
    (h : ShareOk task xs) : ShareOk task ys := by
  unfold ShareOk at h ⊢
  rw [minutesOf_perm perm, perm.length_eq] at h
  refine ⟨h.1, fun hs hne => h.2 hs ?_⟩
  rintro rfl
  exact hne (List.perm_nil.mp perm.symm)

/-- A task may hold any part of the blocks it may hold. -/
theorem ShareOk.sublist {task : TaskRecord} {xs ys : List PlanBlock} (sub : ys.Sublist xs)
    (h : ShareOk task xs) : ShareOk task ys := by
  obtain ⟨hminutes, hsingle⟩ := h
  refine ⟨(minutesOf_le_of_sublist sub).trans hminutes, fun hs hne => ?_⟩
  have hxs : xs ≠ [] := by
    rintro rfl
    exact hne (List.sublist_nil.mp sub)
  obtain ⟨hone, htotal⟩ := hsingle hs hxs
  have hpos := List.length_pos_iff.mpr hne
  have hlen := sub.length_le
  have hsame := sub.eq_of_length (by omega)
  exact hsame ▸ ⟨hone, htotal⟩

theorem shareOk_nil (task : TaskRecord) : ShareOk task [] := by
  have h := task.duration_pos
  refine ⟨?_, by simp⟩
  simp only [minutesOf_nil]
  omega

/-- Blocks that occupy disjoint times. -/
def PairwiseApart (blocks : List PlanBlock) : Prop :=
  blocks.Pairwise fun a b => a.toTimeWindow.Apart b.toTimeWindow

theorem PairwiseApart.perm {xs ys : List PlanBlock} (perm : xs.Perm ys)
    (h : PairwiseApart xs) : PairwiseApart ys :=
  (perm.pairwise_iff fun {_ _} hab => TimeWindow.Apart.symm hab).mp h

theorem PairwiseApart.nodup {blocks : List PlanBlock} (h : PairwiseApart blocks) :
    blocks.Nodup := by
  refine h.imp fun {a b} hab => ?_
  rintro rfl
  have hlt := a.windowValid.2.2
  rcases hab with hab | hab <;> omega

namespace Planner
variable {p : Planner}

theorem foldl_reserve (state : PlannerState) (blocks : List PlanBlock) :
    blocks.foldl p.reserve state =
      { state with
        blocks := state.blocks ++ blocks
        busy := state.busy ++ blocks.map fun block => p.indices block.toTimeWindow } := by
  induction blocks generalizing state with
  | nil => simp
  | cons block blocks ih => simp [ih, reserve, List.append_assoc]

/-- The invariant of the busy list: it is the fixed events followed by the
placed blocks, which fit their pending tasks and are pairwise apart. -/
structure Sound (p : Planner) (state : PlannerState) : Prop where
  busy_eq : state.busy =
    p.events ++ state.blocks.map fun block => p.indices block.toTimeWindow
  placed : ∀ block ∈ state.blocks, ∃ task ∈ p.pending,
    task.id = block.taskId ∧ p.Fits task block.toTimeWindow
  apart : PairwiseApart state.blocks

theorem sound_initial (p : Planner) (budget : Int) : p.Sound (p.initial budget) :=
  ⟨by simp [initial], by simp [initial], by simp [initial, PairwiseApart]⟩

theorem Sound.busy_nonempty (grid : p.Grid) {state : PlannerState} (sound : p.Sound state) :
    ∀ interval ∈ state.busy, interval.1 < interval.2 := by
  intro interval h
  rw [sound.busy_eq] at h
  rcases List.mem_append.mp h with h | h
  · exact grid.events_nonempty interval h
  · obtain ⟨block, -, rfl⟩ := List.mem_map.mp h
    exact indices_lt grid block.toTimeWindow

theorem validBlock_sound (grid : p.Grid) {state : PlannerState} (sound : p.Sound state)
    {task : TaskRecord} {block : PlanBlock} :
    p.validBlock task block (p.freeMask state.busy 0) = true ↔
      p.Fits task block.toTimeWindow ∧
      ∀ other ∈ state.blocks, block.toTimeWindow.Apart other.toTimeWindow := by
  rw [validBlock_freeMask grid (sound.busy_nonempty grid), sound.busy_eq]
  constructor
  · rintro ⟨fits, h⟩
    refine ⟨fits, fun other ho => (indices_apart grid).mp (h _ ?_)⟩
    exact List.mem_append_right _ (List.mem_map_of_mem ho)
  · rintro ⟨fits, h⟩
    refine ⟨fits, fun interval hi => ?_⟩
    rcases List.mem_append.mp hi with hi | hi
    · exact fits.apart_events grid interval hi
    · obtain ⟨other, ho, rfl⟩ := List.mem_map.mp hi
      exact (indices_apart grid).mpr (h other ho)

/-- Reserving blocks that fit and are apart from everything keeps the invariant. -/
theorem Sound.reserveAll {state : PlannerState} (sound : p.Sound state)
    {blocks : List PlanBlock}
    (fits : ∀ block ∈ blocks, ∃ task ∈ p.pending,
      task.id = block.taskId ∧ p.Fits task block.toTimeWindow)
    (apart : PairwiseApart (state.blocks ++ blocks)) :
    p.Sound (blocks.foldl p.reserve state) := by
  rw [foldl_reserve]
  refine ⟨?_, ?_, apart⟩
  · simp [sound.busy_eq, List.append_assoc]
  · intro block hb
    rcases List.mem_append.mp hb with hb | hb
    · exact sound.placed block hb
    · exact fits block hb

theorem mem_pending {task : TaskRecord} :
    task ∈ p.pending ↔ task ∈ p.tasks ∧ task.status = .pending := by
  simp [pending]

theorem Grid.pending_nodup (grid : p.Grid) : (p.pending.map (·.id)).Nodup :=
  grid.snapshot.1.sublist (List.filter_sublist.map _)

/-- A pending task is determined by its id. -/
theorem Grid.pending_unique (grid : p.Grid) {a b : TaskRecord} (ha : a ∈ p.pending)
    (hb : b ∈ p.pending) (h : a.id = b.id) : a = b :=
  List.inj_on_of_nodup_map grid.pending_nodup ha hb h

theorem mem_previous {task : TaskRecord} (ht : task ∈ p.pending) {block : PlanBlock} :
    block ∈ p.previous task.id ↔
      block ∈ p.request.previousBlocks ∧ block.taskId = task.id := by
  simp only [previous, List.mem_filter, decide_eq_true_eq]
  constructor
  · rintro ⟨hb, hid, -⟩
    exact ⟨hb, hid⟩
  · rintro ⟨hb, hid⟩
    exact ⟨hb, hid, task, ht, hid.symm⟩

theorem mem_locks {task : TaskRecord} {block : PlanBlock} :
    block ∈ p.locks task ↔ block ∈ p.previous task.id ∧ block.locked = true := by
  simp [locks]

theorem mem_movable {task : TaskRecord} {block : PlanBlock} :
    block ∈ p.movable task ↔ block ∈ p.previous task.id ∧ block.locked = false := by
  simp [movable]

theorem previous_taskId {taskId : UUID} {block : PlanBlock}
    (h : block ∈ p.previous taskId) : block.taskId = taskId := by
  simp only [previous, List.mem_filter, decide_eq_true_eq] at h
  exact h.2.1

theorem locks_taskId {task : TaskRecord} {block : PlanBlock} (h : block ∈ p.locks task) :
    block.taskId = task.id :=
  previous_taskId (mem_locks.mp h).1

theorem movable_taskId {task : TaskRecord} {block : PlanBlock} (h : block ∈ p.movable task) :
    block.taskId = task.id :=
  previous_taskId (mem_movable.mp h).1

/-- Locks and movable blocks split the previous blocks of a task. -/
theorem locks_append_movable_perm (task : TaskRecord) :
    (p.locks task ++ p.movable task).Perm (p.previous task.id) := by
  have hsplit := List.filter_append_perm (fun block : PlanBlock => block.locked)
    (p.previous task.id)
  exact ((sortBy_perm _ _).append (sortBy_perm _ _)).trans hsplit

theorem reserveLocks_ok (grid : p.Grid) {task : TaskRecord} (ht : task ∈ p.pending)
    {blocks : List PlanBlock} (own : ∀ block ∈ blocks, block.taskId = task.id)
    {state state' : PlannerState} (sound : p.Sound state) :
    p.reserveLocks task blocks state = .ok state' ↔
      (∀ block ∈ blocks, p.Fits task block.toTimeWindow) ∧
      PairwiseApart (state.blocks ++ blocks) ∧ state' = blocks.foldl p.reserve state := by
  induction blocks generalizing state with
  | nil =>
      have hs := sound.apart
      simp [reserveLocks, hs, eq_comm]
  | cons block blocks ih =>
      have valid := @validBlock_sound p grid state sound task block
      simp only [List.forall_mem_cons] at own ⊢
      simp only [reserveLocks]
      by_cases hv : p.validBlock task block (p.freeMask state.busy 0) = true
      · rw [if_pos hv]
        obtain ⟨hfit, happart⟩ := valid.mp hv
        have apart : PairwiseApart (state.blocks ++ [block]) := by
          refine List.pairwise_append.mpr ⟨sound.apart, by simp, fun a ha b hb => ?_⟩
          rw [List.mem_singleton.mp hb]
          exact (happart a ha).symm
        have sound' : p.Sound (p.reserve state block) :=
          @Sound.reserveAll p state sound [block]
            (by simpa using ⟨task, ht, own.1.symm, hfit⟩) apart
        rw [ih own.2 sound']
        simp [reserve, hfit, List.append_assoc]
      · rw [if_neg hv]
        constructor
        · intro h
          contradiction
        · rintro ⟨⟨hfit, -⟩, hpair, -⟩
          refine absurd (valid.mpr ⟨hfit, fun other ho => ?_⟩) hv
          exact ((List.pairwise_append.mp hpair).2.2 other ho block (by simp)).symm

theorem preserveLocks_ok (grid : p.Grid) {task : TaskRecord} (ht : task ∈ p.pending)
    {state state' : PlannerState} (sound : p.Sound state) :
    p.preserveLocks state task = .ok state' ↔
      ShareOk task (p.locks task) ∧
      (∀ block ∈ p.locks task, p.Fits task block.toTimeWindow) ∧
      PairwiseApart (state.blocks ++ p.locks task) ∧
      state' = (p.locks task).foldl p.reserve state := by
  unfold preserveLocks
  simp only [raiseIf_bind_ok]
  rw [reserveLocks_ok grid ht (fun block => locks_taskId) sound]
  refine and_congr_left fun _ => ?_
  unfold ShareOk
  constructor
  · intro h
    rw [not_or] at h
    refine ⟨by omega, fun hs hne => ?_⟩
    by_contra hno
    rw [not_and_or] at hno
    exact h.2 ⟨hne, hs, hno⟩
  · rintro ⟨hle, hone⟩ (hlt | ⟨hne, hs, hno⟩)
    · omega
    · have := hone hs hne
      omega

/-- The lock loop accepts exactly the locks that suit their tasks, fit, and are
apart from each other; it then reserves them all. -/
theorem foldlM_preserveLocks_ok (grid : p.Grid) {tasks : List TaskRecord}
    (ht : ∀ task ∈ tasks, task ∈ p.pending) {state state' : PlannerState}
    (sound : p.Sound state) :
    tasks.foldlM p.preserveLocks state = .ok state' ↔
      (∀ task ∈ tasks, ShareOk task (p.locks task) ∧
        ∀ block ∈ p.locks task, p.Fits task block.toTimeWindow) ∧
      PairwiseApart (state.blocks ++ tasks.flatMap p.locks) ∧
      state' = (tasks.flatMap p.locks).foldl p.reserve state := by
  induction tasks generalizing state with
  | nil =>
      have hs := sound.apart
      simp [hs, eq_comm]
  | cons task tasks ih =>
      simp only [List.forall_mem_cons] at ht ⊢
      rw [List.foldlM_cons, bind_ok]
      have fits_of : (∀ block ∈ p.locks task, p.Fits task block.toTimeWindow) →
          ∀ block ∈ p.locks task, ∃ task ∈ p.pending,
            task.id = block.taskId ∧ p.Fits task block.toTimeWindow :=
        fun h block hb => ⟨task, ht.1, (locks_taskId hb).symm, h block hb⟩
      constructor
      · rintro ⟨middle, hfirst, hrest⟩
        obtain ⟨share, fits, apart, rfl⟩ := (preserveLocks_ok grid ht.1 sound).mp hfirst
        obtain ⟨others, apart', rfl⟩ :=
          (ih ht.2 (sound.reserveAll (fits_of fits) apart)).mp hrest
        refine ⟨⟨⟨share, fits⟩, others⟩, ?_, ?_⟩
        · simpa [foldl_reserve, List.append_assoc] using apart'
        · rw [List.flatMap_cons, List.foldl_append]
      · rintro ⟨⟨⟨share, fits⟩, others⟩, apart, rfl⟩
        have apartFirst : PairwiseApart (state.blocks ++ p.locks task) := by
          rw [List.flatMap_cons, ← List.append_assoc] at apart
          exact (List.pairwise_append.mp apart).1
        refine ⟨_, (preserveLocks_ok grid ht.1 sound).mpr ⟨share, fits, apartFirst, rfl⟩, ?_⟩
        rw [ih ht.2 (sound.reserveAll (fits_of fits) apartFirst)]
        refine ⟨others, ?_, ?_⟩
        · simpa [foldl_reserve, List.append_assoc] using apart
        · rw [List.flatMap_cons, List.foldl_append]

/-- The locked previous blocks of the pending tasks, in the order of the lock
loop. -/
def allLocks (p : Planner) : List PlanBlock := p.previousTasks.flatMap p.locks

theorem mem_previousTasks {task : TaskRecord} :
    task ∈ p.previousTasks ↔ task ∈ p.pending ∧ p.previous task.id ≠ [] := by
  simp [previousTasks]

theorem locks_of_no_previous {task : TaskRecord} (h : p.previous task.id = []) :
    p.locks task = [] := by
  simp [locks, h, sortBy]

theorem mem_allLocks {block : PlanBlock} :
    block ∈ p.allLocks ↔ ∃ task ∈ p.pending, block ∈ p.locks task := by
  simp only [allLocks, List.mem_flatMap, mem_previousTasks]
  constructor
  · rintro ⟨task, ⟨ht, -⟩, hb⟩
    exact ⟨task, ht, hb⟩
  · rintro ⟨task, ht, hb⟩
    exact ⟨task, ⟨ht, List.ne_nil_of_mem (mem_locks.mp hb).1⟩, hb⟩

theorem Grid.previousTasks_nodup (grid : p.Grid) : (p.previousTasks.map (·.id)).Nodup := by
  have perm := (sortBy_perm (fun task : TaskRecord => task.id)
    (p.pending.filter fun task => p.previous task.id ≠ [])).map (·.id)
  refine perm.nodup_iff.mpr (grid.pending_nodup.sublist ?_)
  exact List.filter_sublist.map _

/-- The lock loop visits every locked block of a pending task once. -/
theorem allLocks_perm (grid : p.Grid) :
    p.allLocks.Perm (p.request.previousBlocks.filter fun block =>
      block.locked && p.pending.any fun task => task.id = block.taskId) := by
  set held := p.request.previousBlocks.filter fun block =>
    block.locked && p.pending.any fun task => task.id = block.taskId with hheld
  have covered : ∀ block ∈ held, block.taskId ∈ p.previousTasks.map (·.id) := by
    intro block hb
    simp only [hheld, List.mem_filter, Bool.and_eq_true, List.any_eq_true,
      decide_eq_true_eq] at hb
    obtain ⟨hmem, -, task, ht, hid⟩ := hb
    refine List.mem_map.mpr ⟨task, mem_previousTasks.mpr ⟨ht, ?_⟩, hid⟩
    exact List.ne_nil_of_mem ((mem_previous ht).mpr ⟨hmem, hid.symm⟩)
  have grouped := flatMap_filter_perm PlanBlock.taskId grid.previousTasks_nodup covered
  rw [List.flatMap_map] at grouped
  refine List.Perm.trans ?_ grouped
  refine List.Perm.flatMap_left _ fun task ht => ?_
  have hp := (mem_previousTasks.mp ht).1
  refine (sortBy_perm _ _).trans (List.Perm.of_eq ?_)
  simp only [hheld, previous, List.filter_filter]
  refine List.filter_congr fun block _ => ?_
  by_cases hid : block.taskId = task.id
  · have hany : ∃ other ∈ p.pending, other.id = block.taskId := ⟨task, hp, hid.symm⟩
    simp [hid, hid ▸ hany]
  · simp [hid]

/-- What the lock phase accepts, over the pending tasks. -/
def LocksOk (p : Planner) : Prop :=
  (∀ task ∈ p.pending, ShareOk task (p.locks task) ∧
    ∀ block ∈ p.locks task, p.Fits task block.toTimeWindow) ∧
  PairwiseApart p.allLocks

/-- The lock phase succeeds exactly on acceptable locks, and reserves them. -/
theorem lockPhase_ok (grid : p.Grid) (budget : Int) {state : PlannerState} :
    p.previousTasks.foldlM p.preserveLocks (p.initial budget) = .ok state ↔
      p.LocksOk ∧ state = p.allLocks.foldl p.reserve (p.initial budget) := by
  rw [foldlM_preserveLocks_ok grid (fun task ht => (mem_previousTasks.mp ht).1)
    (sound_initial p budget)]
  rw [show (p.initial budget).blocks = [] from rfl, List.nil_append, ← and_assoc]
  refine and_congr_left fun _ => and_congr_left fun _ => ?_
  constructor
  · intro h task ht
    by_cases hprev : p.previous task.id = []
    · rw [locks_of_no_previous hprev]
      exact ⟨shareOk_nil task, by simp⟩
    · exact h task (mem_previousTasks.mpr ⟨ht, hprev⟩)
  · intro h task ht
    exact h task (mem_previousTasks.mp ht).1

/-- The locks of a task are its locked blocks in the request. -/
theorem locks_perm {task : TaskRecord} (ht : task ∈ p.pending) :
    (p.locks task).Perm
      ((blocksOf p.request.previousBlocks task.id).filter (·.locked)) := by
  refine (sortBy_perm _ _).trans (List.Perm.of_eq ?_)
  simp only [previous, blocksOf, List.filter_filter]
  refine List.filter_congr fun block _ => ?_
  by_cases hid : block.taskId = task.id
  · have hany : ∃ other ∈ p.pending, other.id = task.id := ⟨task, ht, rfl⟩
    simp [hid, hany]
  · simp [hid]

/-- The lock loop in terms of the blocks of the request. -/
theorem locksOk_iff (grid : p.Grid) :
    p.LocksOk ↔
      (∀ task ∈ p.pending,
        ShareOk task ((blocksOf p.request.previousBlocks task.id).filter (·.locked)) ∧
        ∀ block ∈ (blocksOf p.request.previousBlocks task.id).filter (·.locked),
          p.Fits task block.toTimeWindow) ∧
      PairwiseApart (lockedBlocks p.request.previousBlocks p.tasks) := by
  have apart : PairwiseApart p.allLocks ↔
      PairwiseApart (lockedBlocks p.request.previousBlocks p.tasks) := by
    have perm := allLocks_perm grid
    simp only [pending, List.any_filter] at perm
    exact ⟨fun h => h.perm perm, fun h => h.perm perm.symm⟩
  unfold LocksOk
  rw [apart]
  refine and_congr_left fun _ => forall₂_congr fun task ht => ?_
  have perm := locks_perm ht
  exact and_congr ⟨fun h => h.perm perm, fun h => h.perm perm.symm⟩
    (forall_congr' fun block => imp_congr_left perm.mem_iff)

end Planner

end SmartPlanner
