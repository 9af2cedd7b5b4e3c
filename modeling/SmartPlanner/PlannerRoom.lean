import SmartPlanner.PlannerAllocate
import Mathlib.Data.Int.Interval

/-!
When the placement loop gives up. A task that found no slot within the budget
has no room left: too few free minutes inside its bounds, or no free run of its
whole duration. Room is never regained while the busy list grows, and a task
without room is never completed. `Allocated.round` says once what a round of the
allocation loop can do.
-/

namespace SmartPlanner

open Intervals Outcome Sorting

theorem gapsLoop_cover {mask : Mask} {n : Nat} {index a b : Int} {run : Option Int}
    (low : run.getD index ≤ a) (hab : a < b) (hb : b ≤ index + n)
    (free : ∀ i, index ≤ i → a ≤ i → i < b → mask i = true) :
    ∃ gap ∈ gapsLoop mask n index run, gap.1 ≤ a ∧ b ≤ gap.2 := by
  induction n generalizing index run with
  | zero =>
      cases run with
      | none =>
          simp only [Option.getD_none] at low
          omega
      | some left => exact ⟨(left, index), by simp [gapsLoop], low, by simpa using hb⟩
  | succ n ih =>
      have later : ∀ i, index + 1 ≤ i → a ≤ i → i < b → mask i = true :=
        fun i h₁ h₂ h₃ => free i (by omega) h₂ h₃
      cases run with
      | none =>
          simp only [Option.getD_none] at low
          simp only [gapsLoop]
          split
          · exact ih (by simpa using low) (by omega) later
          · next hbusy =>
              have hne : index ≠ a := by
                rintro rfl
                exact hbusy (free index (le_refl _) (le_refl _) hab)
              exact ih (by simp only [Option.getD_none]; omega) (by omega) later
      | some left =>
          simp only [Option.getD_some] at low
          simp only [gapsLoop]
          split
          · exact ih (by simpa using low) (by omega) later
          · next hbusy =>
              by_cases hend : b ≤ index
              · exact ⟨(left, index), List.mem_cons_self, low, hend⟩
              · have hlater : index < a := by
                  by_contra hge
                  exact hbusy (free index (le_refl _) (by omega) (by omega))
                obtain ⟨gap, hgap, hcover⟩ := @ih (index + 1) none
                  (by simp only [Option.getD_none]; omega) (by omega) later
                exact ⟨gap, List.mem_cons_of_mem _ hgap, hcover⟩

/-- Every free run inside the bounds lies in one of the gaps. -/
theorem gaps_cover {mask : Mask} {start stop a b : Int} (low : start ≤ a) (hab : a < b)
    (high : b ≤ stop) (free : ∀ i, a ≤ i → i < b → mask i = true) :
    ∃ gap ∈ gaps mask start stop, gap.1 ≤ a ∧ b ≤ gap.2 :=
  gapsLoop_cover (by simpa using low) hab (by omega) fun i _ => free i

/-- A search among some candidates has an answer unless it hits the budget. -/
theorem searchStarts_none {cost : Int → Int} {starts : List Int} {budget left : Int}
    {best : Option (Int × Int)} (h : searchStarts cost starts budget best = .done none left) :
    best = none ∧ starts = [] := by
  induction starts generalizing budget best with
  | nil =>
      simp only [searchStarts, Search.done.injEq] at h
      exact ⟨h.1, rfl⟩
  | cons start starts ih =>
      simp only [searchStarts] at h
      split at h
      · contradiction
      · obtain ⟨hbest, -⟩ := ih h
        rcases ite_eq_iff.mp hbest with ⟨-, hkey⟩ | ⟨hkept, rfl⟩
        · contradiction
        · simp at hkept

/-- The first position of a gap that is long enough is a candidate. -/
theorem start_mem_candidateStarts {gaps : List Interval} {length : Int} {gap : Interval}
    (hgap : gap ∈ gaps) (fits : length ≤ gap.2 - gap.1) :
    gap.1 ∈ candidateStarts gaps length := by
  simp only [candidateStarts, List.mem_flatMap, List.mem_map, List.mem_range]
  exact ⟨gap, hgap, 0, by omega, by simp⟩

private theorem le_foldl_max_of_mem {xs : List Int} {low x : Int} (h : x ∈ xs) :
    x ≤ xs.foldl max low := by
  induction xs generalizing low with
  | nil => simp at h
  | cons y ys ih =>
      rcases List.mem_cons.mp h with rfl | h
      · exact le_trans (le_max_right low x) (le_foldl_max ys _)
      · exact ih h

/-- The maximum of a fold is its start or one of the items. -/
private theorem foldl_max_mem (xs : List Int) (low : Int) :
    xs.foldl max low = low ∨ xs.foldl max low ∈ xs := by
  induction xs generalizing low with
  | nil => simp
  | cons x xs ih =>
      rw [List.foldl_cons]
      rcases ih (max low x) with h | h
      · rw [h]
        rcases max_choice low x with h' | h'
        · exact Or.inl h'
        · exact Or.inr (by simp [h'])
      · exact Or.inr (List.mem_cons_of_mem _ h)

namespace Planner
variable {p : Planner}

/-- The free minutes inside the bounds of a task. -/
def freeMinutes (p : Planner) (task : TaskRecord) (busy : List Interval) : Finset Int :=
  ((Finset.range ((p.bounds task).2 - (p.bounds task).1).toNat).image
    fun k : ℕ => (p.bounds task).1 + k).filter fun i => p.freeMask busy 0 i = true

/-- There is a free run of a length inside the bounds of a task. -/
def FreeRun (p : Planner) (task : TaskRecord) (length : Int) (busy : List Interval) : Prop :=
  ∃ start, (p.bounds task).1 ≤ start ∧ start + length ≤ (p.bounds task).2 ∧
    ∀ i, start ≤ i → i < start + length → p.freeMask busy 0 i = true

/-- The missing minutes of a task cannot be placed. -/
def NoRoom (p : Planner) (task : TaskRecord) (missing : Int) (busy : List Interval) : Prop :=
  if task.splittable then ((p.freeMinutes task busy).card : Int) < missing
  else ¬ p.FreeRun task missing busy

theorem mem_freeMinutes {task : TaskRecord} {busy : List Interval} {i : Int} :
    i ∈ p.freeMinutes task busy ↔
      ((p.bounds task).1 ≤ i ∧ i < (p.bounds task).2) ∧ p.freeMask busy 0 i = true := by
  unfold freeMinutes
  rw [Finset.mem_filter, Finset.mem_image]
  refine and_congr_left fun _ => ⟨?_, fun hi => ?_⟩
  · rintro ⟨k, hk, rfl⟩
    rw [Finset.mem_range] at hk
    omega
  · refine ⟨(i - (p.bounds task).1).toNat, Finset.mem_range.mpr ?_, ?_⟩
    · omega
    · omega

/-- Every free run inside the bounds is at most as long as the longest gap. -/
theorem le_longestGap {task : TaskRecord} {busy : List Interval} {pause a b : Int}
    (low : (p.bounds task).1 ≤ a) (hab : a < b) (high : b ≤ (p.bounds task).2)
    (free : ∀ i, a ≤ i → i < b → p.freeMask busy pause i = true) :
    b - a ≤ p.longestGap task busy pause := by
  obtain ⟨gap, hgap, h₁, h₂⟩ := gaps_cover low hab high free
  have hle : gap.2 - gap.1 ≤ p.longestGap task busy pause :=
    le_foldl_max_of_mem (List.mem_map_of_mem (f := fun gap : Interval => gap.2 - gap.1) hgap)
  omega

/-- Some gap is as long as the longest, unless there is none. -/
theorem longestGap_mem (task : TaskRecord) (busy : List Interval) (pause : Int) :
    p.longestGap task busy pause = 0 ∨
    ∃ gap ∈ p.freeGaps task busy pause, gap.2 - gap.1 = p.longestGap task busy pause := by
  rcases foldl_max_mem ((p.freeGaps task busy pause).map fun gap => gap.2 - gap.1) 0
    with hzero | hmem
  · exact Or.inl hzero
  · obtain ⟨gap, hgap, heq⟩ := List.mem_map.mp hmem
    exact Or.inr ⟨gap, hgap, heq⟩

/-- A pass that is not cut off finds nothing only when no gap is long enough. -/
theorem searchPause_short {task : TaskRecord} {remaining : Int} {busy : List Interval}
    {used : List Int} {pause budget left : Int}
    (h : p.searchPause task remaining busy used pause budget = .done none left) :
    p.pieceLength task remaining (p.longestGap task busy pause) ≤ 0 ∨
      p.longestGap task busy pause <
        p.pieceLength task remaining (p.longestGap task busy pause) := by
  rw [searchPause_eq] at h
  simp only at h
  split at h
  · next hshort => omega
  · next henough =>
      by_contra hfits
      split at h
      · contradiction
      · next best budget' hsearch =>
          simp only [Search.done.injEq, Option.map_eq_none_iff] at h
          rw [h.1] at hsearch
          obtain ⟨-, hstarts⟩ := searchStarts_none hsearch
          rcases p.longestGap_mem task busy pause with hzero | ⟨gap, hgap, hgap_eq⟩
          · omega
          · have hstart := start_mem_candidateStarts hgap
              (show p.pieceLength task remaining (p.longestGap task busy pause) ≤ gap.2 - gap.1
                by omega)
            rw [hstarts] at hstart
            simp at hstart

/-- One pass without a pause that finds nothing. -/
theorem searchPause_none {task : TaskRecord} {remaining : Int} {busy : List Interval}
    {used : List Int} {budget left : Int} (hrem : 1 ≤ remaining)
    (h : p.searchPause task remaining busy used 0 budget = .done none left) :
    (task.splittable = true → p.freeMinutes task busy = ∅) ∧
    (task.splittable = false → ¬ p.FreeRun task remaining busy) := by
  have hfocus := p.preferences.focus_pos
  have short := searchPause_short h
  constructor
  · intro hs
    rw [Finset.eq_empty_iff_forall_notMem]
    intro i hi
    obtain ⟨⟨hl, hr⟩, hm⟩ := mem_freeMinutes.mp hi
    have hlong := le_longestGap hl (Int.lt_succ i) hr
      fun j h₁ h₂ => by rwa [show j = i by omega]
    simp only [pieceLength, hs, if_true] at short
    omega
  · rintro hs ⟨start, hl, hr, hm⟩
    have hlong := le_longestGap hl (show start < start + remaining by omega) hr hm
    rw [pieceLength_whole hs] at short
    omega

/-- The last pass is the one without a pause. -/
theorem findSlotLoop_none {task : TaskRecord} {remaining : Int} {busy : List Interval}
    {used : List Int} {pauses : List Int} {budget left : Int} (hrem : 1 ≤ remaining)
    (last : (0 : Int) ∈ pauses)
    (h : p.findSlotLoop task remaining busy used pauses budget = .done none left) :
    (task.splittable = true → p.freeMinutes task busy = ∅) ∧
    (task.splittable = false → ¬ p.FreeRun task remaining busy) := by
  induction pauses generalizing budget with
  | nil => simp at last
  | cons pause pauses ih =>
      simp only [findSlotLoop] at h
      split at h
      · contradiction
      · simp at h
      · next hpass =>
          rcases List.mem_cons.mp last with rfl | last
          · exact searchPause_none hrem hpass
          · exact ih last h

theorem findSlot_none {task : TaskRecord} {remaining : Int} {busy : List Interval}
    {used : List Int} {budget left : Int} (hrem : 1 ≤ remaining)
    (h : p.findSlot task remaining busy used budget = .done none left) :
    p.NoRoom task remaining busy := by
  have last : (0 : Int) ∈ p.pauses := by
    unfold pauses
    split <;> simp
  obtain ⟨hsplit, hwhole⟩ := findSlotLoop_none hrem last h
  unfold NoRoom
  split
  · next hs =>
      rw [hsplit hs, Finset.card_empty]
      omega
  · next hs => exact hwhole (by simpa using hs)

/-- More busy time, less room. -/
theorem freeMask_mono (grid : p.Grid) {busy busy' : List Interval} (sub : busy ⊆ busy') {i : Int}
    (h : p.freeMask busy' 0 i = true) : p.freeMask busy 0 i = true := by
  rw [freeMask_iff grid] at h ⊢
  exact ⟨h.1, fun interval hi => h.2 interval (sub hi)⟩

theorem NoRoom.mono (grid : p.Grid) {task : TaskRecord} {missing : Int}
    {busy busy' : List Interval} (sub : busy ⊆ busy') (h : p.NoRoom task missing busy) :
    p.NoRoom task missing busy' := by
  unfold NoRoom at h ⊢
  split at h
  · next hs =>
      rw [if_pos hs]
      have hsub : p.freeMinutes task busy' ⊆ p.freeMinutes task busy := by
        intro i hi
        rw [mem_freeMinutes] at hi ⊢
        exact ⟨hi.1, freeMask_mono grid sub hi.2⟩
      have hcard := Finset.card_le_card hsub
      omega
  · next hs =>
      rw [if_neg hs]
      rintro ⟨start, hl, hr, hm⟩
      exact h ⟨start, hl, hr, fun i h₁ h₂ => freeMask_mono grid sub (hm i h₁ h₂)⟩

/-- Without minutes between its bounds a task has no room. -/
theorem noRoom_of_bounds {task : TaskRecord} {missing : Int} (hmissing : 1 ≤ missing)
    (busy : List Interval) (empty : (p.bounds task).2 ≤ (p.bounds task).1) :
    p.NoRoom task missing busy := by
  unfold NoRoom
  split
  · have hnone : p.freeMinutes task busy = ∅ := by
      refine Finset.eq_empty_iff_forall_notMem.mpr fun i hi => ?_
      obtain ⟨⟨hl, hr⟩, -⟩ := mem_freeMinutes.mp hi
      omega
    rw [hnone, Finset.card_empty]
    omega
  · rintro ⟨start, hl, hr, -⟩
    omega

/-- A reserved slot takes exactly its length from the free minutes. -/
theorem SlotOk.card_freeMinutes (grid : p.Grid) {task : TaskRecord} {remaining : Int}
    {busy : List Interval} {start length : Int}
    (slot : p.SlotOk task remaining busy (start, length)) :
    ((p.freeMinutes task busy).card : Int) =
      (p.freeMinutes task (busy ++ [(start, start + length)])).card + length := by
  obtain ⟨hpos, -, -, hl, hr, hm⟩ := slot
  simp only at hpos hl hr hm
  have hsub : Finset.Ico start (start + length) ⊆ p.freeMinutes task busy := by
    intro i hi
    rw [Finset.mem_Ico] at hi
    exact mem_freeMinutes.mpr ⟨⟨by omega, by omega⟩, hm i hi.1 hi.2⟩
  have rest : p.freeMinutes task (busy ++ [(start, start + length)]) =
      p.freeMinutes task busy \ Finset.Ico start (start + length) := by
    ext i
    rw [Finset.mem_sdiff, mem_freeMinutes, mem_freeMinutes, Finset.mem_Ico, freeMask_iff grid,
      freeMask_iff grid, List.forall_mem_append, List.forall_mem_singleton]
    tauto
  have hcard := Finset.card_sdiff_add_card_eq_card hsub
  rw [← rest, Int.card_Ico] at hcard
  omega

/-- Taking a slot neither makes nor loses room for a splittable task. -/
theorem SlotOk.noRoom_iff (grid : p.Grid) {task : TaskRecord} {remaining : Int}
    {busy : List Interval} {start length : Int} (hs : task.splittable = true)
    (slot : p.SlotOk task remaining busy (start, length)) :
    p.NoRoom task (remaining - length) (busy ++ [(start, start + length)]) ↔
      p.NoRoom task remaining busy := by
  have hcard := slot.card_freeMinutes grid
  unfold NoRoom
  rw [if_pos hs, if_pos hs]
  omega

/-- A slot for the whole rest of an unsplittable task is a free run. -/
theorem SlotOk.freeRun {task : TaskRecord} {remaining : Int} {busy : List Interval}
    {start length : Int} (hs : task.splittable = false)
    (slot : p.SlotOk task remaining busy (start, length)) : p.FreeRun task remaining busy := by
  obtain ⟨-, -, hwhole, hl, hr, hm⟩ := slot
  have hlength := hwhole hs
  simp only at hlength hl hr hm
  subst hlength
  exact ⟨start, hl, hr, hm⟩

theorem placePieces_zero {task : TaskRecord} {placedBlocks fuel : Nat} {additions : List PlanBlock}
    {busy intervals : List Interval} {budget : Int} {placement : Placement}
    (h : p.placePieces task placedBlocks fuel 0 additions busy intervals budget = .ok placement) :
    placement.remaining = 0 := by
  cases fuel with
  | zero =>
      cases h
      rfl
  | succ fuel =>
      simp only [placePieces, if_true] at h
      cases h
      rfl

/-- A placement loop that gives up for want of a slot had no room. -/
theorem placePieces_stuck (grid : p.Grid) {task : TaskRecord} {placedBlocks fuel : Nat}
    {remaining : Int} {additions : List PlanBlock} {busy intervals : List Interval}
    {budget : Int} {placement : Placement} (hrem : 0 ≤ remaining)
    (enough : remaining.toNat ≤ fuel)
    (h : p.placePieces task placedBlocks fuel remaining additions busy intervals budget =
      .ok placement)
    (unlimited : placement.limited = false) (stuck : placement.remaining ≠ 0) :
    p.NoRoom task remaining busy := by
  induction fuel generalizing remaining additions busy intervals budget with
  | zero =>
      cases h
      exact absurd (show remaining = 0 by omega) stuck
  | succ fuel ih =>
      simp only [placePieces] at h
      split at h
      · next hzero =>
          cases h
          exact absurd hzero stuck
      · next hne =>
          split at h
          · cases h
            simp at unlimited
          · split at h
            · cases h
              simp at unlimited
            · next hslot => exact findSlot_none (by omega) hslot
            · next start length budget' hslot =>
                have slot := findSlot_ok (by omega) hslot
                have hpos := slot.1
                have hle := slot.2.1
                simp only at hpos hle
                split at h
                · contradiction
                · cases hs : task.splittable with
                  | true => exact (slot.noRoom_iff grid hs).mp (ih (by omega) (by omega) h)
                  | false =>
                      -- one slot is the whole task, and the loop ends
                      have hlength : length = remaining := slot.2.2.1 hs
                      rw [hlength, Int.sub_self] at h
                      exact absurd (placePieces_zero h) stuck

/-- A placement loop without room does not place everything. -/
theorem placePieces_noRoom (grid : p.Grid) {task : TaskRecord} {placedBlocks fuel : Nat}
    {remaining : Int} {additions : List PlanBlock} {busy intervals : List Interval}
    {budget : Int} {placement : Placement} (hrem : 1 ≤ remaining)
    (noRoom : p.NoRoom task remaining busy)
    (h : p.placePieces task placedBlocks fuel remaining additions busy intervals budget =
      .ok placement) : placement.remaining ≠ 0 := by
  induction fuel generalizing remaining additions busy intervals budget with
  | zero =>
      cases h
      simp only
      omega
  | succ fuel ih =>
      simp only [placePieces] at h
      rw [if_neg (by omega)] at h
      split at h
      · cases h
        simp only
        omega
      · split at h
        · cases h
          simp only
          omega
        · cases h
          simp only
          omega
        · next start length budget' hslot =>
            have slot := findSlot_ok (by omega) hslot
            cases hs : task.splittable with
            | true =>
                split at h
                · contradiction
                · have rest := (slot.noRoom_iff grid hs).mpr noRoom
                  have hmissing : 1 ≤ remaining - length := by
                    unfold NoRoom at rest
                    rw [if_pos hs] at rest
                    omega
                  exact ih hmissing rest h
            | false =>
                unfold NoRoom at noRoom
                rw [if_neg (by simp [hs])] at noRoom
                exact absurd (slot.freeRun hs) noRoom

/-- What one round of the allocation loop does: nothing for a complete task, the
missing minutes for a task with room, and an entry otherwise. -/
theorem Allocated.round (grid : p.Grid) {done : List TaskRecord} {state state' : PlannerState}
    (inv : p.Allocated done state) {task : TaskRecord} (ht : task ∈ p.pending)
    (h : p.allocateTask state task = .ok state') :
    (minutesOf (blocksOf state.blocks task.id) = task.durationMinutes ∧ state' = state) ∨
    (minutesOf (blocksOf state.blocks task.id) ≠ task.durationMinutes ∧
      ∃ pieces budget, state' = pieces.foldl p.reserve { state with budget := budget } ∧
        p.PiecesOk task (task.durationMinutes - minutesOf (blocksOf state.blocks task.id))
          state.busy pieces 0 ∧
        ¬ p.NoRoom task (task.durationMinutes - minutesOf (blocksOf state.blocks task.id))
          state.busy) ∨
    (minutesOf (blocksOf state.blocks task.id) ≠ task.durationMinutes ∧
      ∃ entry budget, state' = { state with
          budget := budget, unscheduled := state.unscheduled ++ [entry] } ∧
        (entry.reason = .searchLimit ∨
          p.NoRoom task (task.durationMinutes - minutesOf (blocksOf state.blocks task.id))
            state.busy)) := by
  have placed : placedMinutes state task.id = minutesOf (blocksOf state.blocks task.id) := rfl
  have hshare := (inv.share task ht).1
  unfold allocateTask at h
  simp only [placed] at h
  split at h
  · next hzero =>
      cases h
      exact Or.inl ⟨by omega, rfl⟩
  · next missing =>
      right
      rw [bind_ok] at h
      obtain ⟨placement, hplace, h⟩ := h
      obtain ⟨pieces, hadd, ok, -⟩ := placePieces_ok grid (by omega)
        (inv.sound.busy_nonempty grid) hplace
      rw [List.nil_append] at hadd
      split at h
      · next hdone =>
          cases h
          rw [hdone] at ok
          refine Or.inl ⟨by omega, pieces, placement.budget, by rw [hadd], ok, fun noRoom => ?_⟩
          exact placePieces_noRoom grid (by omega) noRoom hplace hdone
      · next hleft =>
          simp only [bind_ok, UnscheduledTask.make_ok] at h
          obtain ⟨entry, ⟨-, rfl⟩, h⟩ := h
          cases h
          refine Or.inr ⟨by omega, _, placement.budget, rfl, ?_⟩
          simp only [unscheduledReason]
          split
          · next hempty => exact Or.inr (noRoom_of_bounds (by omega) _ hempty.2)
          · cases hlimited : placement.limited with
            | true => exact Or.inl rfl
            | false =>
                exact Or.inr (placePieces_stuck grid (by omega) (le_refl _) hplace hlimited hleft)

end Planner

end SmartPlanner
