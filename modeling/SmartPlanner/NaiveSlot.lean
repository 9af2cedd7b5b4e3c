import SmartPlanner.PlannerRoom
import SmartPlanner.DayRanges
import SmartPlanner.PreviewSound
import Mathlib.Data.Set.Card

/-!
`find_slot` against its naive reading: look at every start whose minutes are all
free, compute its cost minute by minute, and take the cheapest and then the
earliest. Gaps, prefix tables and day ranges only make this faster.
-/

namespace SmartPlanner

open Intervals Outcome Sorting

theorem gapsLoop_ordered (mask : Mask) (n : ℕ) (index : Int) (run : Option Int) :
    (gapsLoop mask n index run).Pairwise fun a b => a.2 ≤ b.1 := by
  induction n generalizing index run with
  | zero => cases run <;> simp [gapsLoop]
  | succ n ih =>
      cases run with
      | none =>
          simp only [gapsLoop]
          split <;> exact ih _ _
      | some left =>
          simp only [gapsLoop]
          split
          · exact ih _ _
          · refine List.pairwise_cons.mpr ⟨fun gap hgap => ?_, ih _ _⟩
            have hlow := (gapsLoop_spec (le_refl (index + 1)) (by simp) gap hgap).1
            simp only
            omega

theorem candidateStarts_nodup {gaps : List Interval} {length : Int} (hlength : 1 ≤ length)
    (ordered : gaps.Pairwise fun a b => a.2 ≤ b.1) : (candidateStarts gaps length).Nodup := by
  rw [candidateStarts, List.nodup_flatMap]
  constructor
  · intro gap _
    refine List.Nodup.map (fun a b hab => ?_) List.nodup_range
    omega
  · refine ordered.imp fun before => List.disjoint_left.mpr fun start h₁ h₂ => ?_
    simp only [List.mem_map, List.mem_range] at h₁ h₂
    obtain ⟨k, hk, rfl⟩ := h₁
    obtain ⟨k', hk', heq⟩ := h₂
    omega

/-- The candidates of the gaps are the starts with all minutes free. -/
theorem mem_candidateStarts_gaps {mask : Mask} {left right length start : Int}
    (hlength : 1 ≤ length) :
    start ∈ candidateStarts (gaps mask left right) length ↔
      left ≤ start ∧ start + length ≤ right ∧
        ∀ i, start ≤ i → i < start + length → mask i = true := by
  constructor
  · intro h
    obtain ⟨gap, hgap, hl, hr⟩ := mem_candidateStarts h
    obtain ⟨hlow, -, hhigh, hm⟩ := mem_gaps hgap
    exact ⟨by omega, by omega, fun i h₁ h₂ => hm i (by omega) (by omega)⟩
  · rintro ⟨hl, hr, hm⟩
    obtain ⟨gap, hgap, h₁, h₂⟩ := gaps_cover hl (show start < start + length by omega) hr hm
    simp only [candidateStarts, List.mem_flatMap, List.mem_map, List.mem_range]
    exact ⟨gap, hgap, (start - gap.1).toNat, by omega, by omega⟩

/-- The smaller of the best key so far and a new one. -/
def keepBest (best : Option (Int × Int)) (key : Int × Int) : Option (Int × Int) :=
  if (match best with
    | none => true
    | some old => decide (toLex key < toLex old)) then some key else best

theorem keepBest_spec (best : Option (Int × Int)) (key : Int × Int) :
    ∃ least, keepBest best key = some least ∧ (best = some least ∨ least = key) ∧
      toLex least ≤ toLex key ∧ ∀ old ∈ best, toLex least ≤ toLex old := by
  cases best with
  | none => exact ⟨key, rfl, Or.inr rfl, le_refl _, by simp⟩
  | some old =>
      simp only [keepBest, decide_eq_true_eq, Option.mem_some_iff, forall_eq']
      split
      · next hlt => exact ⟨key, rfl, Or.inr rfl, le_refl _, le_of_lt hlt⟩
      · next hge => exact ⟨old, rfl, Or.inl rfl, not_lt.mp hge, le_refl _⟩

/-- A search with enough budget looks at every candidate and keeps the smallest
key. -/
theorem searchStarts_done {cost : Int → Int} {starts : List Int} {budget : Int}
    {best : Option (Int × Int)} (enough : (starts.length : Int) ≤ budget) :
    ∃ found, searchStarts cost starts budget best = .done found (budget - starts.length) ∧
      (found = best ∨ ∃ start ∈ starts, found = some (cost start, start)) ∧
      (∀ start ∈ starts, ∃ key ∈ found, toLex key ≤ toLex (cost start, start)) ∧
      ∀ old ∈ best, ∃ key ∈ found, toLex key ≤ toLex old := by
  induction starts generalizing budget best with
  | nil =>
      exact ⟨best, by simp [searchStarts], Or.inl rfl, by simp, fun old h => ⟨old, h, le_refl _⟩⟩
  | cons start starts ih =>
      simp only [List.length_cons, Nat.cast_add, Nat.cast_one] at enough ⊢
      obtain ⟨least, hleast, hfrom, hkey, hbest⟩ := keepBest_spec best (cost start, start)
      obtain ⟨found, hdone, hmem, hall, hold⟩ := @ih (budget - 1)
        (keepBest best (cost start, start)) (by omega)
      obtain ⟨key, hfound, hle⟩ := hold least hleast
      refine ⟨found, ?_, ?_, ?_, fun old h => ⟨key, hfound, le_trans hle (hbest old h)⟩⟩
      · rw [searchStarts, if_neg (by omega),
          show budget - ((starts.length : Int) + 1) = budget - 1 - starts.length by omega]
        exact hdone
      · rcases hmem with hmem | ⟨other, ho, hmem⟩
        · rw [hmem, hleast]
          rcases hfrom with hfrom | hfrom
          · exact Or.inl hfrom.symm
          · exact Or.inr ⟨start, List.mem_cons_self, congrArg some hfrom⟩
        · exact Or.inr ⟨other, List.mem_cons_of_mem _ ho, hmem⟩
      · rw [List.forall_mem_cons]
        exact ⟨⟨key, hfound, le_trans hle hkey⟩, hall⟩

/-- With less budget than candidates the search is cut off. -/
theorem searchStarts_limit {cost : Int → Int} {starts : List Int} {budget : Int}
    {best : Option (Int × Int)} (nonempty : starts ≠ []) (short : budget < starts.length) :
    searchStarts cost starts budget best = .limit (min budget 0) := by
  induction starts generalizing budget best with
  | nil => contradiction
  | cons start starts ih =>
      simp only [List.length_cons, Nat.cast_add, Nat.cast_one] at short
      simp only [searchStarts]
      split
      · next out => rw [min_eq_left out]
      · next budgeted =>
          have rest : starts ≠ [] := by
            rintro rfl
            simp only [List.length_nil, Nat.cast_zero] at short
            omega
          rw [ih rest (by omega)]
          congr 1
          omega

/-- The smallest key belongs to the earliest of the cheapest starts. -/
theorem isLeast_of_key_le {cost : Int → Int} {starts : List Int} {start : Int}
    (hmem : start ∈ starts)
    (least : ∀ other ∈ starts, toLex (cost start, start) ≤ toLex (cost other, other)) :
    IsLeast {s | s ∈ starts ∧ ∀ other ∈ starts, cost s ≤ cost other} start := by
  have ordered : ∀ other ∈ starts, cost start < cost other ∨
      cost start = cost other ∧ start ≤ other := by
    intro other ho
    simpa [Prod.Lex.toLex_le_toLex] using least other ho
  refine ⟨⟨hmem, fun other ho => ?_⟩, ?_⟩
  · rcases ordered other ho with hlt | ⟨heq, -⟩
    · exact le_of_lt hlt
    · exact le_of_eq heq
  · rintro other ⟨ho, cheapest⟩
    rcases ordered other ho with hlt | ⟨-, hle⟩
    · exact absurd (cheapest start hmem) (not_le.mpr hlt)
    · exact hle

theorem searchStarts_isLeast (cost : Int → Int) {starts : List Int} (nonempty : starts ≠ [])
    (budget : Int) :
    ∃ start, IsLeast {s | s ∈ starts ∧ ∀ other ∈ starts, cost s ≤ cost other} start ∧
      searchStarts cost starts budget none =
        if (starts.length : Int) ≤ budget then
          .done (some (cost start, start)) (budget - starts.length)
        else .limit (min budget 0) := by
  have found : ∀ {enough : Int}, (starts.length : Int) ≤ enough →
      ∃ start, IsLeast {s | s ∈ starts ∧ ∀ other ∈ starts, cost s ≤ cost other} start ∧
        searchStarts cost starts enough none =
          .done (some (cost start, start)) (enough - starts.length) := by
    intro enough h
    obtain ⟨found, hdone, hmem, hall, -⟩ := @searchStarts_done cost starts enough none h
    obtain ⟨first, hfirst⟩ := List.exists_mem_of_ne_nil _ nonempty
    obtain ⟨key, hkey, -⟩ := hall first hfirst
    obtain ⟨start, hstart, rfl⟩ := hmem.resolve_left (by rintro rfl; simp at hkey)
    refine ⟨start, isLeast_of_key_le hstart fun other ho => ?_, hdone⟩
    obtain ⟨_, ⟨⟩, hle⟩ := hall other ho
    exact hle
  by_cases enough : (starts.length : Int) ≤ budget
  · simpa only [if_pos enough] using found enough
  · obtain ⟨start, least, -⟩ := found (le_refl _)
    refine ⟨start, least, ?_⟩
    rw [if_neg enough, searchStarts_limit nonempty (not_le.mp enough)]

namespace Planner
variable {p : Planner}

/-- A minute is free when every busy interval keeps a distance from it. -/
def FreeAt (p : Planner) (busy : List Interval) (pause i : Int) : Prop :=
  p.available i = true ∧ ∀ interval ∈ busy, ¬ (interval.1 - pause ≤ i ∧ i < interval.2 + pause)

/-- A start inside the bounds of a task with all its minutes free. -/
def FreeStart (p : Planner) (task : TaskRecord) (busy : List Interval) (pause length start : Int) :
    Prop :=
  (p.bounds task).1 ≤ start ∧ start + length ≤ (p.bounds task).2 ∧
  ∀ i, start ≤ i → i < start + length → p.FreeAt busy pause i

/-- A free run that can hold a piece of the task. -/
def Suitable (p : Planner) (task : TaskRecord) (remaining : Int) (busy : List Interval)
    (pause : Int) : Prop :=
  if task.splittable then ∃ start, p.FreeStart task busy pause 1 start
  else ∃ start, p.FreeStart task busy pause remaining start

open Classical in
/-- The break the search keeps: it is given up where it leaves no suitable run. -/
noncomputable def chosenPause (p : Planner) (task : TaskRecord) (remaining : Int)
    (busy : List Interval) : Int :=
  if p.Suitable task remaining busy p.preferences.breakMinutes then p.preferences.breakMinutes
  else 0

/-- The list `used` that holds the minutes of every local date. -/
def usageOf (p : Planner) (used : Int → Int) : List Int :=
  p.dayRanges.map fun range => used (p.localDay range.1)

/-- The cost of a placement, minute by minute. -/
def naiveCost (p : Planner) (task : TaskRecord) (used : Int → Int) (start length : Int) : Int :=
  let outside := fun (part : DayPart) =>
    Mask.count (outsidePart p.zone p.start part) start (start + length)
  let weighted := [(task.preferredPeriod.part?, (6 : Int)),
    (p.preferences.chronotype.part?, 2), (some p.preferences.deepWorkPeriod, 1)]
  let periods := (weighted.map fun (part?, weight) =>
    part?.elim 0 fun part => weight * outside part).sum * 100 / length
  let overflows := ∑ day ∈ p.days,
    let added := Mask.count (p.onDay day) start (start + length)
    (max 0 (used day + added - p.dayTarget day) - max 0 (used day - p.dayTarget day)) * 300 / length
  let moved := (p.previousStart task.id).elim 0 fun old =>
    (start - old).natAbs * p.preferences.flexibility.weight / 15
  periods + overflows + moved

/-- The slot of the naive search at some pause: the piece is as long as it may
be, and its start is the earliest of the cheapest. -/
structure Cheapest (p : Planner) (task : TaskRecord) (remaining : Int) (busy : List Interval)
    (used : Int → Int) (pause : Int) (slot : Interval) : Prop where
  length : if task.splittable then
      ∃ longest, IsGreatest {n | ∃ start, p.FreeStart task busy pause n start} longest ∧
        slot.2 = min (min remaining p.preferences.focusBlockMinutes) longest
    else slot.2 = remaining
  start : IsLeast {start | p.FreeStart task busy pause slot.2 start ∧
    ∀ other, p.FreeStart task busy pause slot.2 other →
      p.naiveCost task used start slot.2 ≤ p.naiveCost task used other slot.2} slot.1

theorem freeMask_iff_freeAt (grid : p.Grid) {busy : List Interval} {pause i : Int} :
    p.freeMask busy pause i = true ↔ p.FreeAt busy pause i := by
  unfold freeMask FreeAt
  rw [Mask.foldl_fill_false_iff fun interval : Interval =>
    (max 0 (interval.1 - pause), min p.size (interval.2 + pause))]
  refine and_congr_right fun available => forall₂_congr fun interval _ => not_congr ?_
  have hi := grid.available_range available
  simp only
  omega

theorem mem_candidateStarts_iff (grid : p.Grid) {task : TaskRecord} {busy : List Interval}
    {pause length start : Int} (hlength : 1 ≤ length) :
    start ∈ candidateStarts (p.freeGaps task busy pause) length ↔
      p.FreeStart task busy pause length start := by
  simp only [freeGaps, mem_candidateStarts_gaps hlength, freeMask_iff_freeAt grid]
  rfl

/-- The search looks at each free start once. -/
theorem length_candidateStarts (grid : p.Grid) {task : TaskRecord} {busy : List Interval}
    {pause length : Int} (hlength : 1 ≤ length) :
    (candidateStarts (p.freeGaps task busy pause) length).length =
      Set.ncard {start | p.FreeStart task busy pause length start} := by
  have hset : {start | p.FreeStart task busy pause length start} =
      ((candidateStarts (p.freeGaps task busy pause) length).toFinset : Set Int) := by
    ext start
    rw [Set.mem_ofPred_eq, ← mem_candidateStarts_iff grid hlength, Finset.mem_coe,
      List.mem_toFinset]
  rw [hset, Set.ncard_coe_finset]
  exact (List.toFinset_card_of_nodup
    (candidateStarts_nodup hlength (gapsLoop_ordered _ _ _ _))).symm

/-- Inside the horizon the score is the naive cost. -/
theorem score_eq (table : p.DayTable) (grid : p.Grid) (forward : p.DatesForward)
    (task : TaskRecord) (used : Int → Int) {start length : Int} (low : 0 ≤ start)
    (hlength : 0 ≤ length) (high : start + length ≤ p.size) :
    p.score task start length (p.usageOf used) = p.naiveCost task used start length := by
  have outside : ∀ part, (p.periodPrefix part).getD (start + length).toNat 0 -
      (p.periodPrefix part).getD start.toNat 0 =
        Mask.count (outsidePart p.zone p.start part) start (start + length) :=
    fun part => table.periodPrefix_sub part low (by omega) high
  have days : p.dayRanges.zip ((p.usageOf used).zip p.targets) = p.dayRanges.map fun range =>
      (range, used (p.localDay range.1), p.dayTarget (p.localDay range.1)) := by
    rw [usageOf, targets_eq_map table grid forward, List.zip_map', List.zip_map_right,
      List.zip_eq_zipWith, List.zipWith_self, List.map_map]
    rfl
  unfold score naiveCost
  simp only [days, outside, List.map_map]
  rw [← sum_dayRanges table grid forward]
  congr 2
  · congr 3
    cases task.preferredPeriod.part? <;> cases p.preferences.chronotype.part? <;> rfl
  · congr 1
    refine List.map_congr_left fun range hr => ?_
    rw [count_onDay table grid forward hr low high]
    rfl
  · cases p.previousStart task.id <;> rfl

theorem FreeStart.le_longestGap (grid : p.Grid) {task : TaskRecord} {busy : List Interval}
    {pause length start : Int} (free : p.FreeStart task busy pause length start) :
    length ≤ p.longestGap task busy pause := by
  by_cases hlength : length ≤ 0
  · exact le_trans hlength (le_foldl_max _ 0)
  · obtain ⟨hl, hr, hm⟩ := free
    have hlong := Planner.le_longestGap hl (show start < start + length by omega) hr
      fun i h₁ h₂ => (freeMask_iff_freeAt grid).mpr (hm i h₁ h₂)
    omega

/-- A piece no longer than the longest gap has a free start. -/
theorem exists_freeStart (grid : p.Grid) {task : TaskRecord} {busy : List Interval}
    {pause length : Int} (hlength : 1 ≤ length) (hle : length ≤ p.longestGap task busy pause) :
    ∃ start, p.FreeStart task busy pause length start := by
  obtain ⟨gap, hgap, heq⟩ := (p.longestGap_mem task busy pause).resolve_left (by omega)
  exact ⟨gap.1, (mem_candidateStarts_iff grid hlength).mp
    (start_mem_candidateStarts hgap (by omega))⟩

/-- A pass looks for a piece exactly when there is a suitable run. -/
theorem suitable_iff (grid : p.Grid) {task : TaskRecord} {remaining : Int} {busy : List Interval}
    {pause : Int} (hrem : 1 ≤ remaining) :
    p.Suitable task remaining busy pause ↔
      1 ≤ p.pieceLength task remaining (p.longestGap task busy pause) ∧
      p.pieceLength task remaining (p.longestGap task busy pause) ≤
        p.longestGap task busy pause := by
  have hfocus := p.preferences.focus_pos
  unfold Suitable pieceLength
  split
  · constructor
    · rintro ⟨start, free⟩
      have hlong := free.le_longestGap grid
      omega
    · exact fun h => exists_freeStart grid (le_refl _) (by omega)
  · constructor
    · rintro ⟨start, free⟩
      exact ⟨hrem, free.le_longestGap grid⟩
    · exact fun h => exists_freeStart grid h.1 h.2

theorem searchPause_unsuitable (grid : p.Grid) {task : TaskRecord} {remaining : Int}
    {busy : List Interval} {pause : Int} (hrem : 1 ≤ remaining)
    (h : ¬ p.Suitable task remaining busy pause) (used : List Int) (budget : Int) :
    p.searchPause task remaining busy used pause budget = .done none budget := by
  have hnonneg : 0 ≤ p.longestGap task busy pause := le_foldl_max _ 0
  have hpos := pieceLength_nonneg task (show 0 ≤ remaining by omega) hnonneg (p := p)
  rw [suitable_iff grid hrem] at h
  rw [searchPause_eq]
  simp only
  rw [if_pos (by omega)]

theorem searchPause_suitable (table : p.DayTable) (grid : p.Grid) (forward : p.DatesForward)
    {task : TaskRecord} {remaining : Int} {busy : List Interval} {pause : Int}
    (hrem : 1 ≤ remaining) (h : p.Suitable task remaining busy pause) (used : Int → Int)
    (budget : Int) :
    ∃ slot, p.Cheapest task remaining busy used pause slot ∧
      p.searchPause task remaining busy (p.usageOf used) pause budget =
        let candidates := Set.ncard {start | p.FreeStart task busy pause slot.2 start}
        if (candidates : Int) ≤ budget then .done (some slot) (budget - candidates)
        else .limit (min budget 0) := by
  obtain ⟨hlength, hle⟩ := (suitable_iff grid hrem).mp h
  set length := p.pieceLength task remaining (p.longestGap task busy pause) with hlen
  set starts := candidateStarts (p.freeGaps task busy pause) length with hstarts
  have mem_starts : ∀ {start}, start ∈ starts ↔ p.FreeStart task busy pause length start :=
    mem_candidateStarts_iff grid hlength
  obtain ⟨first, hfirst⟩ := exists_freeStart grid hlength hle
  obtain ⟨start, least, hsearch⟩ := searchStarts_isLeast
    (fun start => p.score task start length (p.usageOf used))
    (List.ne_nil_of_mem (mem_starts.mpr hfirst)) budget
  have cost_eq : ∀ start, p.FreeStart task busy pause length start →
      p.score task start length (p.usageOf used) = p.naiveCost task used start length := by
    rintro start ⟨hl, hr, -⟩
    have hrange := bounds_range grid task
    exact score_eq table grid forward task used (by omega) (by omega) (by omega)
  refine ⟨(start, length), ⟨?_, ?_⟩, ?_⟩
  · simp only [hlen, pieceLength]
    split
    · have longest_pos : 1 ≤ p.longestGap task busy pause := by omega
      refine ⟨_, ⟨exists_freeStart grid longest_pos (le_refl _), ?_⟩, rfl⟩
      rintro n ⟨_, free⟩
      exact free.le_longestGap grid
    · rfl
  · convert least using 1
    ext s
    simp only [Set.mem_ofPred_eq, mem_starts]
    refine and_congr_right fun hs => forall₂_congr fun other ho => ?_
    rw [cost_eq s hs, cost_eq other ho]
  · rw [searchPause_eq]
    simp only [← hlen, ← hstarts]
    rw [if_neg (by omega), hsearch, ← length_candidateStarts grid hlength, ← hstarts]
    by_cases enough : (starts.length : Int) ≤ budget
    · rw [if_pos enough, if_pos enough]
      rfl
    · rw [if_neg enough, if_neg enough]

/-- `find_slot` is the naive search: within the budget it returns the cheapest
slot at the break it keeps, and nothing where no run is suitable even without a
break. -/
theorem findSlot_naive {request : PreviewRequest} {tasks : List TaskRecord}
    {preferences : PreferenceValues} {zone : Zone} {now : Int}
    (hinit : Planner.init request tasks preferences zone now = .ok p)
    (forward : p.DatesForward) (task : TaskRecord) {remaining : Int} (hrem : 1 ≤ remaining)
    (busy : List Interval) (used : Int → Int) (budget : Int) :
    (p.Suitable task remaining busy (p.chosenPause task remaining busy) →
      ∃ slot, p.Cheapest task remaining busy used (p.chosenPause task remaining busy) slot ∧
        p.findSlot task remaining busy (p.usageOf used) budget =
          let candidates := Set.ncard
            {start | p.FreeStart task busy (p.chosenPause task remaining busy) slot.2 start}
          if (candidates : Int) ≤ budget then .done (some slot) (budget - candidates)
          else .limit (min budget 0)) ∧
    (¬ p.Suitable task remaining busy (p.chosenPause task remaining busy) →
      p.findSlot task remaining busy (p.usageOf used) budget = .done none budget) := by
  have grid := init_grid hinit
  have table := init_dayTable hinit
  have last : p.findSlotLoop task remaining busy (p.usageOf used) [0] budget =
      p.searchPause task remaining busy (p.usageOf used) 0 budget := by
    simp only [findSlotLoop]
    cases p.searchPause task remaining busy (p.usageOf used) 0 budget with
    | limit left => rfl
    | done found left => cases found <;> rfl
  -- one pass decides the search: the first that has a suitable run, or the last
  have decided : p.findSlot task remaining busy (p.usageOf used) budget =
      p.searchPause task remaining busy (p.usageOf used) (p.chosenPause task remaining busy)
        budget := by
    unfold findSlot pauses
    by_cases suitable : p.Suitable task remaining busy p.preferences.breakMinutes
    · rw [chosenPause, if_pos suitable]
      split
      · next zero => rw [last, zero]
      · obtain ⟨slot, -, hpass⟩ := searchPause_suitable table grid forward hrem suitable used budget
        simp only [findSlotLoop, hpass]
        by_cases enough : (Set.ncard {start | p.FreeStart task busy p.preferences.breakMinutes
            slot.2 start} : Int) ≤ budget
        · rw [if_pos enough]
        · rw [if_neg enough]
    · rw [chosenPause, if_neg suitable]
      split
      · exact last
      · rw [findSlotLoop, searchPause_unsuitable grid hrem suitable]
        exact last
  rw [decided]
  exact ⟨fun suitable => searchPause_suitable table grid forward hrem suitable used budget,
    fun unsuitable => searchPause_unsuitable grid hrem unsuitable _ _⟩

theorem datesForward_utc (h : p.zone = Zone.utc) : p.DatesForward := by
  intro i j _ hij _
  have hle : p.start + i * minute ≤ p.start + j * minute := by
    unfold minute
    omega
  simp only [localDay, dayAt, h, Zone.utc]
  exact Int.add_le_add_right (Int.ediv_le_ediv (by decide) hle) _

/-- Ten minutes after the lecture the reading gets the twenty that are left. -/
theorem findSlot_naive_lecture :
    ∃ p : Planner, Planner.init lectureRequest [essay, reading] PreferenceValues.default Zone.utc
        (lectureTime 480) = .ok p ∧ p.DatesForward ∧
      p.findSlot reading 30 [(540, 600), (600, 630)] (p.usageOf fun _ => 0) 250000 =
        .done (some (640, 20)) 249999 ∧
      p.Cheapest reading 30 [(540, 600), (600, 630)] (fun _ => 0)
        (p.chosenPause reading 30 [(540, 600), (600, 630)]) (640, 20) := by
  have run : okAnd (Planner.init lectureRequest [essay, reading] PreferenceValues.default Zone.utc
      (lectureTime 480)) (fun p => decide
        (p.findSlot reading 30 [(540, 600), (600, 630)] (p.usageOf fun _ => 0) 250000 =
          .done (some (640, 20)) 249999)) = true := by
    decide +kernel
  obtain ⟨p, hinit, run⟩ := exists_of_okAnd run
  have found := of_decide_eq_true run
  have forward := datesForward_utc (init_fields hinit).2.2.1
  refine ⟨p, hinit, forward, found, ?_⟩
  obtain ⟨suitable, unsuitable⟩ := findSlot_naive hinit forward reading
    (show (1 : Int) ≤ 30 by decide) [(540, 600), (600, 630)] (fun _ => 0) 250000
  generalize (250000 : Int) = budget, (249999 : Int) = left at found suitable unsuitable
  by_cases h : p.Suitable reading 30 [(540, 600), (600, 630)]
      (p.chosenPause reading 30 [(540, 600), (600, 630)])
  · obtain ⟨slot, cheapest, hslot⟩ := suitable h
    rw [found] at hslot
    simp only at hslot
    split at hslot
    · simp only [Search.done.injEq, Option.some.injEq] at hslot
      rwa [hslot.1]
    · cases hslot
  · rw [unsuitable h] at found
    simp at found

end Planner

end SmartPlanner
