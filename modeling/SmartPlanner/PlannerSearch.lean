import SmartPlanner.PlannerPreserve

/-!
The slot search and the placement loop of one task. `findSlot` only returns
free minutes inside the bounds of the task, and `placePieces` turns such slots
into blocks without losing a minute, whatever the scores, the pauses and the
search budget do.
-/

namespace SmartPlanner

open Intervals Outcome Sorting

theorem gapsLoop_spec {mask : Mask} {n : Nat} {index low : Int} {run : Option Int}
    (hlow : low ≤ index)
    (hrun : ∀ left ∈ run, low ≤ left ∧ left < index ∧
      ∀ i, left ≤ i → i < index → mask i = true) :
    ∀ gap ∈ gapsLoop mask n index run,
      low ≤ gap.1 ∧ gap.1 < gap.2 ∧ gap.2 ≤ index + n ∧
      ∀ i, gap.1 ≤ i → i < gap.2 → mask i = true := by
  induction n generalizing index run with
  | zero =>
      cases run with
      | none => simp [gapsLoop]
      | some left =>
          obtain ⟨hl, hlt, hm⟩ := hrun left rfl
          simp only [gapsLoop, List.mem_singleton, forall_eq]
          exact ⟨hl, hlt, by omega, hm⟩
  | succ n ih =>
      intro gap hgap
      cases run with
      | none =>
          simp only [gapsLoop] at hgap
          split at hgap
          · next hfree =>
              have h := @ih (index + 1) (some index) (by omega) (by
                simp only [Option.mem_some_iff, forall_eq']
                refine ⟨hlow, by omega, fun i h₁ h₂ => ?_⟩
                rwa [show i = index by omega]) gap hgap
              exact ⟨h.1, h.2.1, by omega, h.2.2.2⟩
          · have h := @ih (index + 1) none (by omega) (by simp) gap hgap
            exact ⟨h.1, h.2.1, by omega, h.2.2.2⟩
      | some left =>
          obtain ⟨hl, hlt, hm⟩ := hrun left rfl
          simp only [gapsLoop] at hgap
          split at hgap
          · next hfree =>
              have h := @ih (index + 1) (some left) (by omega) (by
                simp only [Option.mem_some_iff, forall_eq']
                refine ⟨hl, by omega, fun i h₁ h₂ => ?_⟩
                by_cases hi : i = index
                · rwa [hi]
                · exact hm i h₁ (by omega)) gap hgap
              exact ⟨h.1, h.2.1, by omega, h.2.2.2⟩
          · rcases List.mem_cons.mp hgap with rfl | hgap
            · exact ⟨hl, hlt, by omega, hm⟩
            · have h := @ih (index + 1) none (by omega) (by simp) gap hgap
              exact ⟨h.1, h.2.1, by omega, h.2.2.2⟩

/-- Every gap is a nonempty range of free positions inside the bounds. -/
theorem mem_gaps {mask : Mask} {start stop : Int} {gap : Interval}
    (h : gap ∈ gaps mask start stop) :
    start ≤ gap.1 ∧ gap.1 < gap.2 ∧ gap.2 ≤ stop ∧
      ∀ i, gap.1 ≤ i → i < gap.2 → mask i = true := by
  have spec := gapsLoop_spec le_rfl (by simp) gap h
  exact ⟨spec.1, spec.2.1, by omega, spec.2.2.2⟩

theorem mem_candidateStarts {gaps : List Interval} {length start : Int}
    (h : start ∈ candidateStarts gaps length) :
    ∃ gap ∈ gaps, gap.1 ≤ start ∧ start + length ≤ gap.2 := by
  simp only [candidateStarts, List.mem_flatMap, List.mem_map, List.mem_range] at h
  obtain ⟨gap, hgap, k, hk, rfl⟩ := h
  exact ⟨gap, hgap, by omega, by omega⟩

/-- The search answers with one of the candidates. -/
theorem searchStarts_mem {cost : Int → Int} {starts : List Int} {budget left : Int}
    {best : Option (Int × Int)} {key : Int × Int}
    (h : searchStarts cost starts budget best = .done (some key) left) :
    best = some key ∨ key.2 ∈ starts := by
  induction starts generalizing budget best with
  | nil =>
      simp only [searchStarts, Search.done.injEq] at h
      exact Or.inl h.1
  | cons start starts ih =>
      simp only [searchStarts] at h
      split at h
      · contradiction
      · rcases ih h with hbest | hmem
        · rcases ite_eq_iff.mp hbest with ⟨-, hkey⟩ | ⟨-, hkey⟩
          · cases hkey
            exact Or.inr (by simp)
          · exact Or.inl hkey
        · exact Or.inr (List.mem_cons_of_mem _ hmem)

theorem le_foldl_max (xs : List Int) (low : Int) : low ≤ xs.foldl max low := by
  induction xs generalizing low with
  | nil => simp
  | cons x xs ih => exact le_trans (le_max_left low x) (ih _)

namespace Planner
variable {p : Planner}

/-- What a chosen slot guarantees: a positive length, the whole rest for an
unsplittable task, and free minutes inside the bounds. -/
def SlotOk (p : Planner) (task : TaskRecord) (remaining : Int) (busy : List Interval)
    (slot : Interval) : Prop :=
  1 ≤ slot.2 ∧ slot.2 ≤ remaining ∧ (task.splittable = false → slot.2 = remaining) ∧
  (p.bounds task).1 ≤ slot.1 ∧ slot.1 + slot.2 ≤ (p.bounds task).2 ∧
  ∀ i, slot.1 ≤ i → i < slot.1 + slot.2 → p.freeMask busy 0 i = true

/-- The free runs inside the bounds of a task, and the longest of them. -/
def freeGaps (p : Planner) (task : TaskRecord) (busy : List Interval) (pause : Int) :
    List Interval :=
  gaps (p.freeMask busy pause) (p.bounds task).1 (p.bounds task).2

def longestGap (p : Planner) (task : TaskRecord) (busy : List Interval) (pause : Int) : Int :=
  ((p.freeGaps task busy pause).map fun gap => gap.2 - gap.1).foldl max 0

/-- The length of the next piece when the longest free run is known. -/
def pieceLength (p : Planner) (task : TaskRecord) (remaining longest : Int) : Int :=
  if task.splittable then min (min remaining p.preferences.focusBlockMinutes) longest
  else remaining

/-- One pass of the search with its length named. -/
theorem searchPause_eq (p : Planner) (task : TaskRecord) (remaining : Int)
    (busy : List Interval) (used : List Int) (pause budget : Int) :
    p.searchPause task remaining busy used pause budget =
      let longest := p.longestGap task busy pause
      let length := p.pieceLength task remaining longest
      if length = 0 ∨ longest < length then .done none budget
      else
        match searchStarts (fun start => p.score task start length used)
            (candidateStarts (p.freeGaps task busy pause) length) budget none with
        | .limit budget => .limit budget
        | .done best budget => .done (best.map fun key => (key.2, length)) budget := by
  have length_eq : ∀ longest, (if task.splittable = true then
      min (if task.splittable = true then min remaining p.preferences.focusBlockMinutes
        else remaining) longest
      else if task.splittable = true then min remaining p.preferences.focusBlockMinutes
        else remaining) = p.pieceLength task remaining longest := by
    intro longest
    unfold pieceLength
    cases task.splittable <;> rfl
  simp only [searchPause, length_eq]
  rfl

theorem pieceLength_le (p : Planner) (task : TaskRecord) (remaining longest : Int) :
    p.pieceLength task remaining longest ≤ remaining := by
  unfold pieceLength
  split <;> omega

theorem pieceLength_whole {task : TaskRecord} (hs : task.splittable = false)
    (remaining longest : Int) : p.pieceLength task remaining longest = remaining := by
  simp [pieceLength, hs]

theorem pieceLength_nonneg (task : TaskRecord) {remaining longest : Int} (hrem : 0 ≤ remaining)
    (hlong : 0 ≤ longest) : 0 ≤ p.pieceLength task remaining longest := by
  have hfocus := p.preferences.focus_pos
  unfold pieceLength
  split <;> omega

/-- What a pass that finds a slot found: a candidate of the length it looked for. -/
theorem searchPause_some {task : TaskRecord} {remaining : Int} {busy : List Interval}
    {used : List Int} {pause budget left : Int} {slot : Interval}
    (h : p.searchPause task remaining busy used pause budget = .done (some slot) left) :
    slot.2 = p.pieceLength task remaining (p.longestGap task busy pause) ∧ slot.2 ≠ 0 ∧
      slot.1 ∈ candidateStarts (p.freeGaps task busy pause) slot.2 := by
  rw [searchPause_eq] at h
  simp only at h
  split at h
  · simp at h
  · next hlen =>
      rw [not_or] at hlen
      split at h
      · contradiction
      · next best budget' hsearch =>
          simp only [Search.done.injEq, Option.map_eq_some_iff] at h
          obtain ⟨⟨key, rfl, rfl⟩, -⟩ := h
          exact ⟨rfl, hlen.1, (searchStarts_mem hsearch).resolve_left (by simp)⟩

theorem searchPause_ok {task : TaskRecord} {remaining : Int} {busy : List Interval}
    {used : List Int} {pause budget left : Int} {slot : Interval} (hpause : 0 ≤ pause)
    (hrem : 1 ≤ remaining)
    (h : p.searchPause task remaining busy used pause budget = .done (some slot) left) :
    p.SlotOk task remaining busy slot := by
  obtain ⟨hlength, hne, hmem⟩ := searchPause_some h
  have hnonneg : 0 ≤ p.longestGap task busy pause := le_foldl_max _ 0
  have hpos := pieceLength_nonneg task (show 0 ≤ remaining by omega) hnonneg (p := p)
  have hle := p.pieceLength_le task remaining (p.longestGap task busy pause)
  obtain ⟨gap, hgap, hl, hr⟩ := mem_candidateStarts hmem
  obtain ⟨hlow, -, hhigh, hm⟩ := mem_gaps hgap
  refine ⟨by omega, by omega, fun hs => ?_, by omega, by omega, ?_⟩
  · rw [hlength, pieceLength_whole hs]
  · intro i h₁ h₂
    exact freeMask_pause hpause (hm i (by omega) (by omega))

theorem pauses_nonneg : ∀ pause ∈ p.pauses, 0 ≤ pause := by
  have h := p.preferences.valid.2.1.1
  unfold pauses
  split <;> simp_all

theorem findSlotLoop_ok {task : TaskRecord} {remaining : Int} {busy : List Interval}
    {used : List Int} {pauses : List Int} {budget left : Int} {slot : Interval}
    (hpauses : ∀ pause ∈ pauses, 0 ≤ pause) (hrem : 1 ≤ remaining)
    (h : p.findSlotLoop task remaining busy used pauses budget = .done (some slot) left) :
    p.SlotOk task remaining busy slot := by
  induction pauses generalizing budget with
  | nil => simp [findSlotLoop] at h
  | cons pause pauses ih =>
      simp only [List.forall_mem_cons] at hpauses
      simp only [findSlotLoop] at h
      split at h
      · contradiction
      · next hfound =>
          cases h
          exact searchPause_ok hpauses.1 hrem hfound
      · exact ih hpauses.2 h

theorem findSlot_ok {task : TaskRecord} {remaining : Int} {busy : List Interval}
    {used : List Int} {budget left : Int} {slot : Interval} (hrem : 1 ≤ remaining)
    (h : p.findSlot task remaining busy used budget = .done (some slot) left) :
    p.SlotOk task remaining busy slot :=
  findSlotLoop_ok pauses_nonneg hrem h

/-- The pieces one run of the placement loop adds. -/
structure PiecesOk (p : Planner) (task : TaskRecord) (remaining : Int)
    (busy : List Interval) (pieces : List PlanBlock) (left : Int) : Prop where
  minutes_eq : minutesOf pieces + left = remaining
  left_nonneg : 0 ≤ left
  fits : ∀ block ∈ pieces, block.taskId = task.id ∧ p.Fits task block.toTimeWindow
  free : ∀ block ∈ pieces, ∀ interval ∈ busy, Apart (p.indices block.toTimeWindow) interval
  apart : PairwiseApart pieces
  single : task.splittable = false → pieces = [] ∨ pieces.length = 1 ∧ left = 0

theorem piecesOk_nil {task : TaskRecord} {remaining : Int} {busy : List Interval}
    (hrem : 0 ≤ remaining) : p.PiecesOk task remaining busy [] remaining :=
  ⟨by simp, hrem, by simp, by simp, by simp [PairwiseApart], by simp⟩

/-- A block made from a chosen slot. -/
theorem SlotOk.block (grid : p.Grid) {task : TaskRecord} {remaining : Int}
    {busy : List Interval} (nonempty : ∀ interval ∈ busy, interval.1 < interval.2)
    {start length : Int} (slot : p.SlotOk task remaining busy (start, length))
    {block : PlanBlock}
    (hmake : PlanBlock.make task.id (p.start + start * minute)
      (p.start + (start + length) * minute) = .ok block) :
    block.taskId = task.id ∧ p.indices block.toTimeWindow = (start, start + length) ∧
    block.minutes = length ∧ p.Fits task block.toTimeWindow ∧
    ∀ interval ∈ busy, Apart (p.indices block.toTimeWindow) interval := by
  obtain ⟨hstart, hstop, hid, -⟩ := PlanBlock.make_ok hmake
  have hindices := indices_of_minutes grid hstart hstop
  obtain ⟨hpos, -, -, hl, hr, hm⟩ := slot
  simp only at hpos hl hr hm
  simp only [freeMask_iff grid] at hm
  refine ⟨hid, hindices, ?_, ?_, ?_⟩
  · rw [indices_minutes grid, hindices]
    simp only
    omega
  · unfold Fits
    rw [hindices]
    exact ⟨hl, hr, fun i h₁ h₂ => (hm i h₁ h₂).1⟩
  · intro interval hi
    rw [hindices, apart_iff_no_common (by simp only; omega) (nonempty interval hi)]
    exact fun i h₁ h₂ => (hm i h₁ h₂).2 interval hi

theorem PiecesOk.cons {task : TaskRecord} {remaining left : Int} {busy : List Interval}
    {block : PlanBlock} {pieces : List PlanBlock}
    (hid : block.taskId = task.id) (fits : p.Fits task block.toTimeWindow)
    (free : ∀ interval ∈ busy, Apart (p.indices block.toTimeWindow) interval)
    (whole : task.splittable = false → block.minutes = remaining) (grid : p.Grid)
    (rest : p.PiecesOk task (remaining - block.minutes)
      (busy ++ [p.indices block.toTimeWindow]) pieces left) :
    p.PiecesOk task remaining busy (block :: pieces) left := by
  refine ⟨?_, rest.left_nonneg, ?_, ?_, ?_, ?_⟩
  · have h := rest.minutes_eq
    simp only [minutesOf_cons]
    omega
  · simp only [List.forall_mem_cons]
    exact ⟨⟨hid, fits⟩, rest.fits⟩
  · simp only [List.forall_mem_cons]
    exact ⟨free, fun other ho interval hi =>
      rest.free other ho interval (List.mem_append_left _ hi)⟩
  · refine List.pairwise_cons.mpr ⟨fun other ho => ?_, rest.apart⟩
    exact ((indices_apart grid).mp (rest.free other ho _ (by simp))).symm
  · intro hs
    have hzero : remaining - block.minutes = 0 := by
      rw [whole hs]
      omega
    have hmin := rest.minutes_eq
    have hle := rest.left_nonneg
    have hge := minutesOf_nonneg pieces
    right
    rcases rest.single hs with rfl | ⟨hone, -⟩
    · exact ⟨by simp, by omega⟩
    · exfalso
      obtain ⟨piece, rfl⟩ := List.length_eq_one_iff.mp hone
      have hpos := piece.minutes_pos
      simp only [minutesOf_cons, minutesOf_nil] at hmin
      omega

theorem placePieces_ok (grid : p.Grid) {task : TaskRecord} {placedBlocks fuel : Nat}
    {remaining : Int} {additions : List PlanBlock} {busy intervals : List Interval}
    {budget : Int} {placement : Placement} (hrem : 0 ≤ remaining)
    (nonempty : ∀ interval ∈ busy, interval.1 < interval.2)
    (h : p.placePieces task placedBlocks fuel remaining additions busy intervals budget =
      .ok placement) :
    ∃ pieces, placement.additions = additions ++ pieces ∧
      p.PiecesOk task remaining busy pieces placement.remaining ∧
      (placedBlocks + additions.length ≤ maxBlocks →
        placedBlocks + placement.additions.length ≤ maxBlocks) := by
  induction fuel generalizing remaining additions busy intervals budget with
  | zero =>
      simp only [placePieces, Except.ok.injEq] at h
      subst h
      exact ⟨[], by simp, piecesOk_nil hrem, id⟩
  | succ fuel ih =>
      simp only [placePieces] at h
      split at h
      · cases h
        exact ⟨[], by simp, piecesOk_nil hrem, id⟩
      · next hne =>
          split at h
          · cases h
            exact ⟨[], by simp, piecesOk_nil hrem, id⟩
          · next hcap =>
              split at h
              · cases h
                exact ⟨[], by simp, piecesOk_nil hrem, id⟩
              · cases h
                exact ⟨[], by simp, piecesOk_nil hrem, id⟩
              · next start length budget' hslot =>
                  have slot := findSlot_ok (by omega) hslot
                  split at h
                  · contradiction
                  · next block hmake =>
                      obtain ⟨hid, hindices, hmin, fits, free⟩ :=
                        slot.block grid nonempty hmake
                      have hle := slot.2.1
                      simp only at hle
                      obtain ⟨pieces, hadd, ok, cap⟩ := ih (by omega) (by
                        intro interval hi
                        rcases List.mem_append.mp hi with hi | hi
                        · exact nonempty interval hi
                        · have hlt := indices_lt grid block.toTimeWindow
                          rw [hindices] at hlt
                          rwa [List.mem_singleton.mp hi]) h
                      refine ⟨block :: pieces, by simp [hadd], ?_, fun _ => cap ?_⟩
                      · refine PiecesOk.cons hid fits free (fun hs => ?_) grid ?_
                        · rw [hmin]
                          exact slot.2.2.1 hs
                        · rw [hmin, hindices]
                          exact ok
                      · simp only [List.length_append, List.length_singleton]
                        unfold maxBlocks at hcap ⊢
                        omega

/-- A block on usable minutes is a valid window, since its first and its last
minute lie in windows of the availability. -/
theorem make_total (grid : p.Grid) (taskId : UUID) {left right : Int} (hlt : left < right)
    (usable : ∀ i, left ≤ i → i < right → p.available i = true) :
    ∃ block, PlanBlock.make taskId (p.start + left * minute)
      (p.start + right * minute) = .ok block := by
  obtain ⟨⟨first, -, hfirst, -⟩, -⟩ := (grid.available_iff left).mp
    (usable left (le_refl _) hlt)
  obtain ⟨⟨last, -, -, hlast⟩, -⟩ := (grid.available_iff (right - 1)).mp
    (usable (right - 1) (by omega) (by omega))
  have hstart := indices_fst grid first
  have hstop := indices_snd grid last
  have whole := grid.wholeStart
  obtain ⟨⟨⟨low, -⟩, -⟩, -⟩ := first.windowValid
  obtain ⟨-, ⟨⟨-, high⟩, -⟩, -⟩ := last.windowValid
  unfold PlanBlock.make
  refine ⟨_, dif_pos ⟨⟨⟨?_, ?_⟩, ?_⟩, ⟨⟨?_, ?_⟩, ?_⟩, ?_⟩⟩ <;> unfold minute at * <;> omega

/-- The placement loop never raises. -/
theorem placePieces_total (grid : p.Grid) (task : TaskRecord) (placedBlocks fuel : Nat)
    (remaining : Int) (additions : List PlanBlock) (busy intervals : List Interval)
    (budget : Int) (hrem : 0 ≤ remaining) :
    ∃ placement, p.placePieces task placedBlocks fuel remaining additions busy intervals
      budget = .ok placement := by
  induction fuel generalizing remaining additions busy intervals budget with
  | zero => exact ⟨_, rfl⟩
  | succ fuel ih =>
      simp only [placePieces]
      split
      · exact ⟨_, rfl⟩
      · split
        · exact ⟨_, rfl⟩
        · split
          · exact ⟨_, rfl⟩
          · exact ⟨_, rfl⟩
          · next start length budget' hslot =>
              obtain ⟨hpos, hle, -, -, -, hm⟩ := findSlot_ok (by omega) hslot
              simp only at hpos hle hm
              obtain ⟨block, hmake⟩ := make_total grid task.id
                (show start < start + length by omega)
                fun i h₁ h₂ => ((freeMask_iff grid _ _).mp (hm i h₁ h₂)).1
              rw [hmake]
              exact ih _ _ _ _ _ (by omega)

/-- A piece takes at least one minute and at most what remains, whatever the
state: its block would be no valid window otherwise. -/
theorem make_length {taskId : UUID} {start length : Int} {block : PlanBlock}
    (h : PlanBlock.make taskId (p.start + start * minute)
      (p.start + (start + length) * minute) = .ok block) : 1 ≤ length := by
  obtain ⟨hstart, hstop, -⟩ := PlanBlock.make_ok h
  have hlt := block.windowValid.2.2
  unfold minute at hstart hstop
  omega

theorem findSlot_length {task : TaskRecord} {remaining : Int} {busy : List Interval}
    {used : List Int} {budget left : Int} {slot : Interval}
    (h : p.findSlot task remaining busy used budget = .done (some slot) left) :
    slot.2 ≤ remaining := by
  unfold findSlot at h
  generalize p.pauses = pauses at h
  induction pauses generalizing budget with
  | nil => simp [findSlotLoop] at h
  | cons pause pauses ih =>
      simp only [findSlotLoop] at h
      split at h
      · contradiction
      · next hfound =>
          cases h
          rw [(searchPause_some hfound).1]
          exact p.pieceLength_le _ _ _
      · exact ih h

/-- As many rounds as minutes are enough, and one ends a loop that starts below
zero. -/
theorem placePieces_fuel {task : TaskRecord} {placedBlocks fuel more : Nat} {remaining : Int}
    {additions : List PlanBlock} {busy intervals : List Interval} {budget : Int}
    (enough : remaining.toNat ≤ fuel) (hmore : remaining.toNat ≤ more)
    (started : 0 ≤ remaining ∨ 0 < fuel ∧ 0 < more) :
    p.placePieces task placedBlocks more remaining additions busy intervals budget =
      p.placePieces task placedBlocks fuel remaining additions busy intervals budget := by
  by_cases hzero : remaining = 0
  · cases fuel <;> cases more <;> simp [placePieces, hzero]
  · induction fuel generalizing more remaining additions busy intervals budget with
    | zero => omega
    | succ fuel ih =>
        obtain ⟨more, rfl⟩ : ∃ n, more = n + 1 := ⟨more - 1, by omega⟩
        simp only [placePieces, if_neg hzero]
        split
        · rfl
        · split
          · rfl
          · rfl
          · next start length budget' hslot =>
              have hle := findSlot_length hslot
              simp only at hle
              split
              · rfl
              · next hmake =>
                  have hpos := make_length hmake
                  by_cases hlast : remaining - length = 0
                  · cases fuel <;> cases more <;> simp [placePieces, hlast]
                  · exact ih (by omega) (by omega) (by omega) hlast

/-- The loop makes at most one piece for a minute. -/
theorem placePieces_length {task : TaskRecord} {placedBlocks fuel : Nat} {remaining : Int}
    {additions : List PlanBlock} {busy intervals : List Interval} {budget : Int}
    {placement : Placement}
    (h : p.placePieces task placedBlocks fuel remaining additions busy intervals budget =
      .ok placement) :
    placement.additions.length ≤ additions.length + remaining.toNat := by
  induction fuel generalizing remaining additions busy intervals budget with
  | zero =>
      cases h
      exact Nat.le_add_right _ _
  | succ fuel ih =>
      simp only [placePieces] at h
      split at h
      · cases h
        exact Nat.le_add_right _ _
      · split at h
        · cases h
          exact Nat.le_add_right _ _
        · split at h
          · cases h
            exact Nat.le_add_right _ _
          · cases h
            exact Nat.le_add_right _ _
          · next start length budget' hslot =>
              have hle := findSlot_length hslot
              simp only at hle
              split at h
              · contradiction
              · next hmake =>
                  have hpos := make_length hmake
                  have hrest := ih h
                  rw [List.length_append, List.length_singleton] at hrest
                  omega

end Planner

end SmartPlanner
