import SmartPlanner.RelaxedBreak

/-!
The warnings of a preview. The scan compares neighbours of the sorted busy list
and intersects blocks with day ranges; disjointness and the day table turn this
into statements about any two items and about local dates. A break that the
search gave up for a piece stays visible, since later rounds only add to the
busy list.
-/

namespace SmartPlanner

open Intervals Outcome Sorting

namespace Planner
variable {p : Planner}

/-- The placed blocks of a preview and its fixed events clipped to the horizon. -/
def items (p : Planner) (preview : PlanPreview) : List Interval :=
  (preview.blocks.map fun block => p.indices block.toTimeWindow) ++
    preview.fixedEvents.map fun event => clip p.start p.size event.toTimeWindow

/-- The minutes of blocks on a local date. -/
def minutesOn (p : Planner) (blocks : List PlanBlock) (day : Int) : Int :=
  (blocks.map fun block => Mask.count (p.onDay day) (p.indices block.toTimeWindow).1
    (p.indices block.toTimeWindow).2).sum

theorem Sound.busy_apart (grid : p.Grid) {state : PlannerState} (sound : p.Sound state) :
    state.busy.Pairwise Apart := by
  rw [sound.busy_eq, List.pairwise_append]
  refine ⟨grid.events_inOrder.imp fun before => Or.inl before, ?_, ?_⟩
  · rw [List.pairwise_map]
    exact sound.apart.imp fun apart => (indices_apart grid).mpr apart
  · intro event he interval hi
    obtain ⟨block, hb, rfl⟩ := List.mem_map.mp hi
    obtain ⟨task, -, -, fits⟩ := sound.placed block hb
    exact (fits.apart_events grid event he).symm

/-- Sorted, the busy list of a sound state is in time order. -/
theorem Sound.chronological (grid : p.Grid) {state : PlannerState} (sound : p.Sound state) :
    InOrder (sortBy toLex state.busy) := by
  have perm := sortBy_perm toLex state.busy
  have apart : (sortBy toLex state.busy).Pairwise Apart :=
    (perm.pairwise_iff fun {_ _} h => Apart.symm h).mpr (sound.busy_apart grid)
  refine (apart.and (sortBy_pairwise toLex state.busy)).imp_of_mem ?_
  rintro a b - hb ⟨before | after, hle⟩
  · exact before
  · have hpos := sound.busy_nonempty grid b (perm.mem_iff.mp hb)
    rw [Prod.Lex.toLex_le_toLex'] at hle
    omega

theorem mem_warnings_break {state : PlannerState} :
    Warning.breakPreferenceNotMet ∈ p.warnings state ↔
      p.preferences.breakMinutes ≠ 0 ∧
      ∃ pair ∈ (sortBy toLex state.busy).zip (sortBy toLex state.busy).tail,
        0 ≤ pair.2.1 - pair.1.2 ∧ pair.2.1 - pair.1.2 < p.preferences.breakMinutes := by
  simp only [warnings, List.mem_append, List.mem_ite_nil_right, List.mem_singleton, reduceCtorEq,
    and_false, or_false, and_true, List.any_eq_true, Bool.and_eq_true, decide_eq_true_eq]

theorem mem_warnings_workload {state : PlannerState} :
    Warning.workloadPreferenceNotMet ∈ p.warnings state ↔
      ∃ pair ∈ (p.usage (state.blocks.map fun block => p.indices block.toTimeWindow)).zip p.targets,
        pair.2 < pair.1 := by
  simp only [warnings, List.mem_append, List.mem_ite_nil_right, List.mem_singleton, reduceCtorEq,
    and_false, or_false, false_or, and_true, List.any_eq_true, decide_eq_true_eq]

theorem mem_warnings_focus {state : PlannerState} :
    Warning.unsplittableTaskExceedsFocusPreference ∈ p.warnings state ↔
      ∃ task ∈ p.pending, task.splittable = false ∧
        p.preferences.focusBlockMinutes < task.durationMinutes ∧
        ∃ block ∈ state.blocks, block.taskId = task.id := by
  simp only [warnings, List.mem_append, List.mem_ite_nil_right, List.mem_singleton, reduceCtorEq,
    and_false, false_or, and_true, List.any_eq_true, Bool.and_eq_true, Bool.not_eq_true',
    decide_eq_true_eq, and_assoc]

/-- Neighbours in the sorted busy list decide for any two items. -/
theorem break_warned_iff (grid : p.Grid) {state : PlannerState} (sound : p.Sound state) :
    Warning.breakPreferenceNotMet ∈ p.warnings state ↔
      0 < p.preferences.breakMinutes ∧ SomeCloser state.busy p.preferences.breakMinutes := by
  have hbreak := p.preferences.valid.2.1.1
  have order := sound.chronological grid
  have nonempty : ∀ item ∈ sortBy toLex state.busy, item.1 < item.2 :=
    fun item hi => sound.busy_nonempty grid item (mem_sortBy.mp hi)
  rw [mem_warnings_break, ← SomeCloser.perm (sortBy_perm toLex state.busy), someCloser_iff,
    pairwise_spaced_iff nonempty order]
  have following : ∀ pair ∈ (sortBy toLex state.busy).zip (sortBy toLex state.busy).tail,
      0 ≤ pair.2.1 - pair.1.2 :=
    (pairwise_spaced_iff nonempty order).mp (order.imp fun _ => distance_nonneg _ _)
  refine and_congr (by omega) ?_
  simp only [not_forall, exists_prop, not_le]
  exact exists_congr fun pair => and_congr_right fun hp => and_iff_right (following pair hp)

/-- Intersections with the day ranges decide for the local dates. -/
theorem workload_warned_iff (table : p.DayTable) (grid : p.Grid) (forward : p.DatesForward)
    {state : PlannerState} (sound : p.Sound state) :
    Warning.workloadPreferenceNotMet ∈ p.warnings state ↔
      ∃ day ∈ p.days, p.dayTarget day < p.minutesOn state.blocks day := by
  have used : p.usage (state.blocks.map fun block => p.indices block.toTimeWindow) =
      p.dayRanges.map fun range => p.minutesOn state.blocks (p.localDay range.1) := by
    refine List.map_congr_left fun range hr => ?_
    rw [List.map_map, minutesOn]
    refine congrArg List.sum (List.map_congr_left fun block hb => ?_)
    obtain ⟨task, -, -, fits⟩ := sound.placed block hb
    obtain ⟨low, high⟩ := fits.range grid
    rw [count_onDay table grid forward hr low high, Function.comp_apply, min_comm, max_comm range.1]
  rw [mem_warnings_workload, used, targets_eq_map table grid forward, List.zip_map']
  simp only [List.mem_map, exists_exists_and_eq_and]
  have stretches := table.stretches grid
  constructor
  · rintro ⟨range, hr, hlt⟩
    exact ⟨_, mem_days.mpr (stretches.mem_keys.mp (List.mem_map_of_mem hr)), hlt⟩
  · rintro ⟨day, hday, hlt⟩
    obtain ⟨range, hr, rfl⟩ := List.mem_map.mp (stretches.mem_keys.mpr (mem_days.mp hday))
    exact ⟨range, hr, hlt⟩

theorem items_perm {request : PreviewRequest} {preview : PlanPreview} (grid : p.Grid)
    {state : PlannerState} (sound : p.Sound state) (hrequest : p.request = request)
    (hblocks : preview.blocks = sortBlocks state.blocks)
    (hevents : preview.fixedEvents = sortEvents request.fixedEvents) :
    (p.items preview).Perm state.busy := by
  subst hrequest
  rw [items, sound.busy_eq, hblocks, hevents, grid.events_eq]
  exact (((sortBy_perm _ _).map _).append_right _).trans List.perm_append_comm

theorem minutesOn_perm {xs ys : List PlanBlock} (perm : xs.Perm ys) (day : Int) :
    p.minutesOn xs day = p.minutesOn ys day :=
  (perm.map _).sum_eq

/-- The loop of a complete task runs no round. -/
theorem LoopReaches.remaining_ne {task : TaskRecord} {placedBlocks : ℕ} {start s s' : PieceLoop}
    {slot : Interval} (reached : p.LoopReaches task placedBlocks start s)
    (adds : p.AddsPiece task placedBlocks s slot s') : start.remaining ≠ 0 := by
  induction reached generalizing slot s' with
  | start => exact adds.1
  | round _ earlier ih => exact ih earlier

/-- A piece that a call of `allocate_task` keeps although the search had to give
up the break for it. -/
def KeepsRelaxed (p : Planner) (searchBudget : Int) : Prop :=
  ∃ state task state' s slot s', p.Allocates searchBudget state task ∧
    p.allocateTask state task = .ok state' ∧ state'.missing task = 0 ∧
    p.LoopReaches task state.blocks.length (p.loopStart state task) s ∧
    p.AddsPiece task state.blocks.length s slot s' ∧ p.Relaxes task s

theorem KeepsRelaxed.warned (grid : p.Grid) {searchBudget : Int} {preserved final : PlannerState}
    (hpreserve : p.preservePrevious (p.initial searchBudget) = .ok preserved)
    (hallocate : p.ordered.foldlM p.allocateTask preserved = .ok final)
    (keeps : p.KeepsRelaxed searchBudget) : Warning.breakPreferenceNotMet ∈ p.warnings final := by
  obtain ⟨state, task, state', s, slot, s', called, hstep, complete, reached, adds, relaxes⟩ :=
    keeps
  obtain ⟨ht, done, inv⟩ := called.allocated grid
  have nonneg : 0 ≤ state.missing task := by
    have hshare := (inv.share task ht).1
    have placed : placedMinutes state task.id = minutesOf (blocksOf state.blocks task.id) := rfl
    unfold PlannerState.missing
    omega
  obtain ⟨more, hkept⟩ := (reached.round adds).kept grid inv.sound nonneg hstep complete
    (reached.remaining_ne adds)
  obtain ⟨later, hlater⟩ : ∃ later, final.busy = state'.busy ++ later := by
    obtain ⟨preserved', before, after, hpreserve', hsplit, hbefore⟩ := called
    obtain rfl : preserved' = preserved := by simpa [hpreserve] using hpreserve'.symm
    rw [hsplit, List.foldlM_append, hbefore, ok_bind, List.foldlM_cons, hstep, ok_bind] at hallocate
    exact foldlM_busy hallocate
  obtain ⟨interval, hi, close⟩ := relaxes.close grid
    (reached.ok grid inv.sound nonneg).remaining_nonneg adds
  have hadds : s'.busy = s.busy ++ [(slot.1, slot.1 + slot.2)] := by
    obtain ⟨-, -, block, budget, -, -, rfl⟩ := adds
    rfl
  rw [break_warned_iff grid (phases_allocated grid hpreserve hallocate).sound, hlater, hkept, hadds,
    List.append_assoc, List.append_assoc]
  have hnonneg := p.preferences.valid.2.1.1
  exact ⟨by have := relaxes.1; omega,
    SomeCloser.of_append hi (List.mem_append_left _ (List.mem_singleton_self _)) close⟩

end Planner

/-- Every warning of a preview is exact, and a break that was given up for a kept
piece is reported. -/
theorem warnings_exact {zoneInfo : String → Zone} {request : PreviewRequest}
    {tasks : List TaskRecord} {preferences : PreferenceValues} {timezoneName : String}
    {now : Int} {preferenceVersion : Nat} {searchBudget : Int} {preview : PlanPreview}
    {p : Planner}
    (hinit : Planner.init request tasks preferences (zoneInfo timezoneName) now = .ok p)
    (h : buildPreview zoneInfo request tasks preferences timezoneName now preferenceVersion
      searchBudget = .ok preview)
    (forward : p.DatesForward) :
    (Warning.breakPreferenceNotMet ∈ preview.warnings ↔ 0 < preferences.breakMinutes ∧
      SomeCloser (p.items preview) preferences.breakMinutes) ∧
    (Warning.workloadPreferenceNotMet ∈ preview.warnings ↔
      ∃ day ∈ p.days, p.dayTarget day < p.minutesOn preview.blocks day) ∧
    (Warning.unsplittableTaskExceedsFocusPreference ∈ preview.warnings ↔
      ∃ task ∈ tasks, task.status = .pending ∧ task.splittable = false ∧
        preferences.focusBlockMinutes < task.durationMinutes ∧
        ∃ block ∈ preview.blocks, block.taskId = task.id) ∧
    (p.KeepsRelaxed searchBudget → Warning.breakPreferenceNotMet ∈ preview.warnings) := by
  unfold buildPreview at h
  rw [hinit, ok_bind] at h
  simp only [bind_ok, pure_eq_ok, Except.ok.injEq] at h
  obtain ⟨preserved, hpreserve, final, hallocate, horizon, -, rfl⟩ := h
  have grid := Planner.init_grid hinit
  have table := Planner.init_dayTable hinit
  obtain ⟨hrequest, rfl, -, -, rfl, -⟩ := Planner.init_fields hinit
  have sound := (Planner.phases_allocated grid hpreserve hallocate).sound
  have perm : (sortBlocks final.blocks).Perm final.blocks := sortBy_perm _ _
  refine ⟨?_, ?_, ?_, fun keeps => keeps.warned grid hpreserve hallocate⟩
  · rw [SomeCloser.perm (Planner.items_perm grid sound hrequest rfl rfl)]
    exact Planner.break_warned_iff grid sound
  · simp only [Planner.minutesOn_perm perm]
    exact Planner.workload_warned_iff table grid forward sound
  · simp only [Planner.mem_warnings_focus, Planner.mem_pending, perm.mem_iff, and_assoc]

/-- The reading gets twenty minutes at a distance from the lecture, and its last
ten without the break. -/
theorem warnings_exact_lecture :
    ∃ (p : Planner) (preview : PlanPreview),
      Planner.init lectureRequest [essay, reading] PreferenceValues.default Zone.utc
        (lectureTime 480) = .ok p ∧
      buildPreview (fun _ => Zone.utc) lectureRequest [essay, reading] PreferenceValues.default
        "UTC" (lectureTime 480) 1 250000 = .ok preview ∧
      p.DatesForward ∧ p.KeepsRelaxed 250000 ∧
      Warning.breakPreferenceNotMet ∈ preview.warnings := by
  have run : okAnd (Planner.init lectureRequest [essay, reading] PreferenceValues.default Zone.utc
      (lectureTime 480)) (fun p => okAnd (p.preservePrevious (p.initial 250000)) fun state =>
        okAnd (p.allocateTask state reading) fun state' =>
        okAnd (PlanBlock.make 2 (p.start + 640 * minute) (p.start + (640 + 20) * minute))
          fun first =>
        okAnd (PlanBlock.make 2 (p.start + 630 * minute) (p.start + (630 + 10) * minute))
          fun _ =>
        let s := p.loopStart state reading
        let s' : PieceLoop := ⟨s.remaining - 20, s.additions ++ [first],
          s.busy ++ [(640, 640 + 20)], s.intervals ++ [(640, 640 + 20)], 249999⟩
        decide (p.ordered = [] ++ reading :: [essay]) && decide (state'.missing reading = 0) &&
        decide (s.remaining = 30) && decide (state.blocks.length + 1 < maxBlocks) &&
        decide (p.findSlot reading s.remaining s.busy (p.usage s.intervals) s.budget =
          .done (some (640, 20)) 249999) &&
        decide (p.findSlot reading s'.remaining s'.busy (p.usage s'.intervals) s'.budget =
          .done (some (630, 10)) 249998) &&
        decide (p.preferences.breakMinutes ≠ 0) &&
        decide (p.searchPause reading s'.remaining s'.busy (p.usage s'.intervals)
          p.preferences.breakMinutes s'.budget = .done none 249999)) = true := by
    decide +kernel
  have returned : okAnd (buildPreview (fun _ => Zone.utc) lectureRequest [essay, reading]
      PreferenceValues.default "UTC" (lectureTime 480) 1 250000) (fun _ => true) = true := by
    decide +kernel
  obtain ⟨p, hinit, run⟩ := exists_of_okAnd run
  obtain ⟨state, hpreserve, run⟩ := exists_of_okAnd run
  obtain ⟨state', hstep, run⟩ := exists_of_okAnd run
  obtain ⟨first, hfirst, run⟩ := exists_of_okAnd run
  obtain ⟨second, hsecond, run⟩ := exists_of_okAnd run
  obtain ⟨preview, h, -⟩ := exists_of_okAnd returned
  simp only [Bool.and_eq_true, decide_eq_true_eq] at run
  obtain ⟨⟨⟨⟨⟨⟨⟨hsplit, complete⟩, hrem⟩, hcap⟩, hslot⟩, hslot'⟩, hbreak⟩, hpass⟩ := run
  have forward := Planner.datesForward_utc (Planner.init_fields hinit).2.2.1
  have keeps : p.KeepsRelaxed 250000 :=
    ⟨state, reading, state', _, (630, 10), _, ⟨state, [], [essay], hpreserve, hsplit, rfl⟩, hstep,
      complete,
      .round .start ⟨by omega, Nat.lt_of_succ_lt hcap, first, _, hslot, hfirst, rfl⟩,
      ⟨by simp only; omega, hcap, second, _, hslot', hsecond, rfl⟩, hbreak, _, hpass⟩
  exact ⟨p, preview, hinit, h, forward, keeps, (warnings_exact hinit h forward).2.2.2 keeps⟩

end SmartPlanner
