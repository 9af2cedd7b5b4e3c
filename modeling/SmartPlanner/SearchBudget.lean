import SmartPlanner.NoSlotFound
import SmartPlanner.DeadlineReason

/-!
The search budget. It counts the candidates that may still be scored and decides
nothing else: a search that ends within it ends the same way with any larger one,
and the lock phase never looks at it.
-/

namespace SmartPlanner

open Intervals Outcome Sorting

/-- The same state with more candidates left. -/
def PlannerState.more (state : PlannerState) (extra : Int) : PlannerState :=
  { state with budget := state.budget + extra }

@[simp] theorem PlannerState.more_blocks (state : PlannerState) (extra : Int) :
    (state.more extra).blocks = state.blocks := rfl

@[simp] theorem PlannerState.more_busy (state : PlannerState) (extra : Int) :
    (state.more extra).busy = state.busy := rfl

@[simp] theorem PlannerState.more_missing (state : PlannerState) (extra : Int)
    (task : TaskRecord) : (state.more extra).missing task = state.missing task := rfl

theorem searchStarts_more {extra : Int} (hextra : 0 ≤ extra) {cost : Int → Int}
    {starts : List Int} {budget left : Int} {best found : Option (Int × Int)}
    (h : searchStarts cost starts budget best = .done found left) :
    searchStarts cost starts (budget + extra) best = .done found (left + extra) := by
  induction starts generalizing budget best with
  | nil =>
      simp only [searchStarts, Search.done.injEq] at h ⊢
      exact ⟨h.1, by rw [h.2]⟩
  | cons start starts ih =>
      simp only [searchStarts] at h ⊢
      split at h
      · contradiction
      · next positive =>
          rw [if_neg (by omega), show budget + extra - 1 = budget - 1 + extra by omega]
          exact ih h

namespace Planner
variable {p : Planner} {extra : Int}

section
variable (hextra : 0 ≤ extra) {task : TaskRecord} {remaining : Int} {busy : List Interval}
  {used : List Int} {budget left : Int} {slot : Option Interval}
include hextra

theorem searchPause_more {pause : Int}
    (h : p.searchPause task remaining busy used pause budget = .done slot left) :
    p.searchPause task remaining busy used pause (budget + extra) =
      .done slot (left + extra) := by
  rw [searchPause_eq] at h ⊢
  simp only at h ⊢
  split at h
  · next unsuitable =>
      simp only [Search.done.injEq] at h
      rw [if_pos unsuitable, h.1, h.2]
  · next suitable =>
      rw [if_neg suitable]
      split at h
      · contradiction
      · next found rest hsearch =>
          simp only [Search.done.injEq] at h
          rw [searchStarts_more hextra hsearch]
          simp only [h.1, h.2]

theorem findSlotLoop_more {pauses : List Int}
    (h : p.findSlotLoop task remaining busy used pauses budget = .done slot left) :
    p.findSlotLoop task remaining busy used pauses (budget + extra) =
      .done slot (left + extra) := by
  induction pauses generalizing budget with
  | nil =>
      simp only [findSlotLoop, Search.done.injEq] at h ⊢
      exact ⟨h.1, by rw [h.2]⟩
  | cons pause pauses ih =>
      simp only [findSlotLoop] at h ⊢
      split at h
      · contradiction
      · next found rest hsearch =>
          rw [searchPause_more hextra hsearch]
          simp only [Search.done.injEq] at h
          simp only [h.1, h.2]
      · next rest hsearch =>
          rw [searchPause_more hextra hsearch]
          exact ih h

theorem findSlot_more (h : p.findSlot task remaining busy used budget = .done slot left) :
    p.findSlot task remaining busy used (budget + extra) = .done slot (left + extra) :=
  findSlotLoop_more hextra h

/-- A placement that met no limit. -/
theorem placePieces_more {placedBlocks fuel : Nat} {additions : List PlanBlock}
    {intervals : List Interval} {placement : Placement}
    (h : p.placePieces task placedBlocks fuel remaining additions busy intervals budget =
      .ok placement) (unlimited : placement.limited = false) :
    p.placePieces task placedBlocks fuel remaining additions busy intervals (budget + extra) =
      .ok { placement with budget := placement.budget + extra } := by
  induction fuel generalizing remaining additions busy intervals budget with
  | zero =>
      simp only [placePieces, Except.ok.injEq] at h ⊢
      rw [← h]
  | succ fuel ih =>
      simp only [placePieces] at h ⊢
      split at h
      · next complete =>
          rw [if_pos complete, ← Except.ok.inj h]
      · next incomplete =>
          rw [if_neg incomplete]
          split at h
          · rw [← Except.ok.inj h] at unlimited
            contradiction
          · next few =>
              rw [if_neg few]
              split at h
              · rw [← Except.ok.inj h] at unlimited
                contradiction
              · next rest hslot =>
                  rw [findSlot_more hextra hslot, ← Except.ok.inj h]
              · next start length rest hslot =>
                  rw [findSlot_more hextra hslot]
                  simp only
                  split at h
                  · contradiction
                  · next block hmake => exact ih h

end

/-- No candidate is scored for a task whose bounds are empty. -/
theorem findSlot_empty {task : TaskRecord} (empty : (p.bounds task).2 ≤ (p.bounds task).1)
    {remaining : Int} (hrem : 1 ≤ remaining) (busy : List Interval) (used : List Int)
    (budget : Int) : p.findSlot task remaining busy used budget = .done none budget := by
  have longest : ∀ pause, p.longestGap task busy pause = 0 := by
    intro pause
    unfold longestGap freeGaps gaps
    rw [show ((p.bounds task).2 - (p.bounds task).1).toNat = 0 by omega]
    rfl
  have pass : ∀ pause, p.searchPause task remaining busy used pause budget = .done none budget := by
    intro pause
    have hpos := pieceLength_nonneg task (show 0 ≤ remaining by omega) (le_refl 0) (p := p)
    have hfocus := p.preferences.focus_pos
    rw [searchPause_eq]
    simp only [longest]
    refine if_pos ?_
    unfold pieceLength at hpos ⊢
    split at hpos <;> omega
  unfold findSlot
  generalize p.pauses = pauses
  induction pauses with
  | nil => rfl
  | cons pause pauses ih =>
      rw [findSlotLoop, pass]
      exact ih

theorem placePieces_empty {task : TaskRecord} (empty : (p.bounds task).2 ≤ (p.bounds task).1)
    {remaining : Int} (hrem : 1 ≤ remaining) (placedBlocks fuel : Nat)
    (additions : List PlanBlock) (busy intervals : List Interval) :
    ∃ limited, ∀ budget,
      p.placePieces task placedBlocks fuel remaining additions busy intervals budget =
        .ok ⟨additions, remaining, limited, budget⟩ := by
  cases fuel with
  | zero => exact ⟨false, fun _ => rfl⟩
  | succ fuel =>
      have incomplete : ¬ remaining = 0 := by omega
      simp only [placePieces, findSlot_empty empty hrem, if_neg incomplete]
      by_cases full : maxBlocks ≤ placedBlocks + additions.length
      · exact ⟨true, fun _ => if_pos full⟩
      · exact ⟨false, fun _ => if_neg full⟩

/-- A placement is cut short only before it is complete. -/
theorem placePieces_limited {task : TaskRecord} {placedBlocks fuel : Nat} {remaining : Int}
    {additions : List PlanBlock} {busy intervals : List Interval} {budget : Int}
    {placement : Placement}
    (h : p.placePieces task placedBlocks fuel remaining additions busy intervals budget =
      .ok placement) (limited : placement.limited = true) : placement.remaining ≠ 0 := by
  induction fuel generalizing remaining additions busy intervals budget with
  | zero =>
      rw [← Except.ok.inj h] at limited
      contradiction
  | succ fuel ih =>
      simp only [placePieces] at h
      split at h
      · rw [← Except.ok.inj h] at limited
        contradiction
      · next incomplete =>
          split at h
          · rw [← Except.ok.inj h]
            exact incomplete
          · split at h
            · rw [← Except.ok.inj h]
              exact incomplete
            · rw [← Except.ok.inj h] at limited
              contradiction
            · split at h
              · contradiction
              · exact ih h

/-- A placement cut short leaves an entry that says so, unless the bounds of the
task are empty. -/
theorem empty_of_limited {state state' : PlannerState} {task : TaskRecord}
    {placement : Placement} (missing : state.missing task ≠ 0)
    (hplace : p.placement state task (state.missing task).toNat = .ok placement)
    (limited : placement.limited = true) (h : p.allocateTask state task = .ok state')
    (unlimited : ∀ entry ∈ state'.unscheduled, entry.reason ≠ .searchLimit) :
    (p.bounds task).2 ≤ (p.bounds task).1 ∧ 1 ≤ state.missing task := by
  rw [allocateTask_eq missing hplace, if_neg (placePieces_limited hplace limited), bind_ok] at h
  obtain ⟨entry, hentry, hstate⟩ := h
  obtain ⟨hpos, rfl⟩ := UnscheduledTask.make_ok.mp hentry
  refine ⟨?_, hpos⟩
  by_contra hopen
  have listed := unlimited ⟨task.id, task.title, state.missing task,
    p.unscheduledReason task placement.limited, _⟩ (by
      rw [← Except.ok.inj hstate]
      exact List.mem_append_right _ List.mem_cons_self)
  refine listed ?_
  rw [limited]
  exact (if_neg fun h => hopen h.2).trans (if_pos rfl)

theorem placement_more (hextra : 0 ≤ extra) {state state' : PlannerState} {task : TaskRecord}
    {placement : Placement} (missing : state.missing task ≠ 0)
    (hplace : p.placement state task (state.missing task).toNat = .ok placement)
    (h : p.allocateTask state task = .ok state')
    (unlimited : ∀ entry ∈ state'.unscheduled, entry.reason ≠ .searchLimit) :
    p.placement (state.more extra) task (state.missing task).toNat =
      .ok { placement with budget := placement.budget + extra } := by
  by_cases limited : placement.limited = true
  · obtain ⟨empty, hpos⟩ := empty_of_limited missing hplace limited h unlimited
    obtain ⟨cut, hall⟩ := placePieces_empty empty hpos state.blocks.length
      (state.missing task).toNat [] state.busy
      (state.blocks.map fun block => p.indices block.toTimeWindow)
    have found := Except.ok.inj (hplace.symm.trans (hall state.budget))
    rw [found]
    exact hall (state.budget + extra)
  · exact placePieces_more hextra hplace (Bool.eq_false_iff.mpr limited)

/-- A round of the allocation after which no task is listed as cut short. -/
theorem allocateTask_more (hextra : 0 ≤ extra) {state state' : PlannerState} {task : TaskRecord}
    (h : p.allocateTask state task = .ok state')
    (unlimited : ∀ entry ∈ state'.unscheduled, entry.reason ≠ .searchLimit) :
    p.allocateTask (state.more extra) task = .ok (state'.more extra) := by
  by_cases complete : state.missing task = 0
  · have same : ∀ state : PlannerState, state.missing task = 0 →
        p.allocateTask state task = .ok state := fun state hzero => if_pos hzero
    rw [same state complete] at h
    rw [same (state.more extra) complete, ← Except.ok.inj h]
  · obtain ⟨placement, hplace⟩ : ∃ placement,
        p.placement state task (state.missing task).toNat = .ok placement := by
      have hrun := h
      unfold allocateTask at hrun
      rw [if_neg (show ¬ task.durationMinutes - placedMinutes state task.id = 0 from complete),
        bind_ok] at hrun
      exact hrun.imp fun _ found => found.1
    have again := placement_more hextra complete hplace h unlimited
    rw [allocateTask_eq complete hplace] at h
    rw [@allocateTask_eq p (state.more extra) task _ complete again]
    split at h
    · next done =>
        rw [if_pos done, ← Except.ok.inj h, foldl_reserve, foldl_reserve]
        rfl
    · next left =>
        rw [bind_ok] at h
        obtain ⟨entry, hentry, hstate⟩ := h
        rw [if_neg left, ← Except.ok.inj hstate, PlannerState.more_missing, hentry]
        rfl

theorem allocation_more (hextra : 0 ≤ extra) {tasks : List TaskRecord}
    {state state' : PlannerState} (h : tasks.foldlM p.allocateTask state = .ok state')
    (unlimited : ∀ entry ∈ state'.unscheduled, entry.reason ≠ .searchLimit) :
    tasks.foldlM p.allocateTask (state.more extra) = .ok (state'.more extra) := by
  have grows : ∀ (tasks : List TaskRecord) {state state' : PlannerState},
      tasks.foldlM p.allocateTask state = .ok state' →
      ∀ entry ∈ state.unscheduled, entry ∈ state'.unscheduled := by
    intro tasks state state' hrun entry hentry
    refine foldlM_invariant (fun state => entry ∈ state.unscheduled) hentry ?_ hrun
    intro task _ before after hmem hstep
    rcases allocateTask_unscheduled hstep with same | ⟨next, limited, added, -, -⟩
    · rwa [same]
    · rw [added]
      exact List.mem_append_left _ hmem
  induction tasks generalizing state with
  | nil => rw [← Except.ok.inj h]; rfl
  | cons task tasks ih =>
      rw [List.foldlM_cons, bind_ok] at h
      obtain ⟨middle, hstep, hrest⟩ := h
      have early : ∀ entry ∈ middle.unscheduled, entry.reason ≠ .searchLimit :=
        fun entry hentry => unlimited entry (grows tasks hrest entry hentry)
      rw [List.foldlM_cons, allocateTask_more hextra hstep early]
      exact ih hrest

/-! The lock phase. -/

theorem reserveLocks_more (task : TaskRecord) (blocks : List PlanBlock) (state : PlannerState) :
    p.reserveLocks task blocks (state.more extra) =
      (p.reserveLocks task blocks state).map (·.more extra) := by
  induction blocks generalizing state with
  | nil => rfl
  | cons block blocks ih =>
      change (if p.validBlock task block (p.freeMask state.busy 0) = true then
          p.reserveLocks task blocks ((p.reserve state block).more extra) else _) =
        (p.reserveLocks task (block :: blocks) state).map (·.more extra)
      rw [ih, reserveLocks]
      split <;> rfl

theorem preserveLocks_more (state : PlannerState) (task : TaskRecord) :
    p.preserveLocks (state.more extra) task =
      (p.preserveLocks state task).map (·.more extra) := by
  unfold preserveLocks
  simp only [reserveLocks_more, map_bind]

theorem preserveMovable_more (state : PlannerState) (task : TaskRecord) :
    p.preserveMovable (state.more extra) task = (p.preserveMovable state task).more extra := by
  have moved : (p.movable task).foldl p.reserve (state.more extra) =
      ((p.movable task).foldl p.reserve state).more extra := by
    rw [foldl_reserve, foldl_reserve]
    rfl
  unfold preserveMovable
  rw [moved, PlannerState.more_busy]
  dsimp only
  split
  · rfl
  · split <;> rfl

theorem preservePrevious_more (state : PlannerState) :
    p.preservePrevious (state.more extra) =
      (p.preservePrevious state).map (·.more extra) := by
  have locked : ∀ (tasks : List TaskRecord) (state : PlannerState),
      tasks.foldlM p.preserveLocks (state.more extra) =
        (tasks.foldlM p.preserveLocks state).map (·.more extra) := by
    intro tasks
    induction tasks with
    | nil => exact fun _ => rfl
    | cons task tasks ih =>
        intro state
        rw [List.foldlM_cons, List.foldlM_cons, preserveLocks_more, map_bind]
        cases p.preserveLocks state task with
        | error error => rfl
        | ok next => exact ih next
  have moved : ∀ (tasks : List TaskRecord) (state : PlannerState),
      tasks.foldl p.preserveMovable (state.more extra) =
        (tasks.foldl p.preserveMovable state).more extra := by
    intro tasks
    induction tasks with
    | nil => exact fun _ => rfl
    | cons task tasks ih =>
        intro state
        rw [List.foldl_cons, List.foldl_cons, preserveMovable_more, ih]
  unfold preservePrevious
  rw [locked, map_bind]
  cases p.previousTasks.foldlM p.preserveLocks state with
  | error error => rfl
  | ok next => exact congrArg Except.ok (moved p.ordered next)

end Planner

/-- Whether a preview is refused, and how, does not depend on the budget; and a
preview in which no task is listed as cut short is the preview of every larger
budget. -/
theorem buildPreview_budget (zoneInfo : String → Zone) (request : PreviewRequest)
    (tasks : List TaskRecord) (preferences : PreferenceValues) (timezoneName : String)
    (now : Int) (preferenceVersion : Nat) {budget larger : Int} (hle : budget ≤ larger) :
    (∀ error, buildPreview zoneInfo request tasks preferences timezoneName now preferenceVersion
        larger = .error error ↔
      buildPreview zoneInfo request tasks preferences timezoneName now preferenceVersion
        budget = .error error) ∧
      ∀ preview, buildPreview zoneInfo request tasks preferences timezoneName now
          preferenceVersion budget = .ok preview →
        (∀ entry ∈ preview.unscheduled, entry.reason ≠ .searchLimit) →
        buildPreview zoneInfo request tasks preferences timezoneName now preferenceVersion
          larger = .ok preview := by
  obtain ⟨extra, hextra, rfl⟩ : ∃ extra, 0 ≤ extra ∧ larger = budget + extra :=
    ⟨larger - budget, by omega, by omega⟩
  unfold buildPreview
  cases hinit : Planner.init request tasks preferences (zoneInfo timezoneName) now with
  | error error => exact ⟨fun _ => Iff.rfl, fun _ h => absurd h nofun⟩
  | ok p =>
      have grid := Planner.init_grid hinit
      have start : p.initial (budget + extra) = (p.initial budget).more extra := rfl
      simp only [ok_bind]
      rw [start, Planner.preservePrevious_more]
      cases hpreserve : p.preservePrevious (p.initial budget) with
      | error error => exact ⟨fun _ => Iff.rfl, fun _ h => absurd h nofun⟩
      | ok state =>
          have hmore : p.preservePrevious (p.initial (budget + extra)) = .ok (state.more extra) := by
            rw [start, Planner.preservePrevious_more, hpreserve, map_ok]
          obtain ⟨reached, hreached⟩ := Planner.allocation_total grid hpreserve
          obtain ⟨reached', hreached'⟩ := Planner.allocation_total grid hmore
          simp only [map_ok, ok_bind]
          rw [hreached, hreached']
          simp only [ok_bind]
          cases hhorizon : TimeWindow.make p.start p.stop with
          | error error => exact ⟨fun _ => Iff.rfl, fun _ h => absurd h nofun⟩
          | ok horizon =>
              refine ⟨fun _ => ⟨nofun, nofun⟩, fun preview h unlimited => ?_⟩
              rw [ok_bind, pure_eq_ok, Except.ok.injEq] at h
              subst h
              have same := Planner.allocation_more hextra hreached unlimited
              rw [hreached', Except.ok.injEq] at same
              subst same
              rfl

theorem buildPreview_budget_lecture :
    ∃ preview, buildPreview (fun _ => Zone.utc) lectureRequest [essay, reading]
        PreferenceValues.default "UTC" (lectureTime 480) 1 1000 = .ok preview ∧
      buildPreview (fun _ => Zone.utc) lectureRequest [essay, reading]
        PreferenceValues.default "UTC" (lectureTime 480) 1 maxCandidates = .ok preview := by
  have returned : okAnd (buildPreview (fun _ => Zone.utc) lectureRequest [essay, reading]
      PreferenceValues.default "UTC" (lectureTime 480) 1 1000)
      (fun preview => preview.unscheduled.all fun entry => entry.reason ≠ .searchLimit) = true := by
    decide +kernel
  obtain ⟨preview, h, hall⟩ := exists_of_okAnd returned
  have unlimited : ∀ entry ∈ preview.unscheduled, entry.reason ≠ .searchLimit :=
    fun entry hentry => of_decide_eq_true (List.all_eq_true.mp hall entry hentry)
  exact ⟨preview, h, (buildPreview_budget (fun _ => Zone.utc) lectureRequest [essay, reading]
    PreferenceValues.default "UTC" (lectureTime 480) 1 (by decide)).2 preview h unlimited⟩

end SmartPlanner
