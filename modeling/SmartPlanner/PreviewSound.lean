import SmartPlanner.PlannerAllocate

/-!
The guarantees of a returned preview. Nothing is assumed about the time zone,
the clock, the snapshot or the budget beyond the checks the planner makes.
-/

namespace SmartPlanner

open Intervals Outcome Sorting

/-- The unscheduled entries of one task. -/
def PlanPreview.missing (preview : PlanPreview) (taskId : UUID) : List UnscheduledTask :=
  preview.unscheduled.filter (·.taskId = taskId)

structure PreviewSound (zone : Zone) (request : PreviewRequest) (tasks : List TaskRecord)
    (now : Int) (preview : PlanPreview) : Prop where
  horizon : preview.horizon.start = zone.dayStart request.startDate ∧
    preview.horizon.stop = zone.dayStart (request.startDate + request.days)
  blocksApart : PairwiseApart preview.blocks
  eventsApart : ∀ block ∈ preview.blocks, ∀ event ∈ request.fixedEvents,
    block.toTimeWindow.Apart event.toTimeWindow
  inside : ∀ block ∈ preview.blocks, ∀ t, block.toTimeWindow.Contains t →
    preview.horizon.Contains t ∧ (∃ window ∈ request.availability, window.Contains t) ∧ now ≤ t
  taskBounds : ∀ block ∈ preview.blocks, ∀ task ∈ tasks, task.id = block.taskId →
    (∀ earliest ∈ task.earliestStart, ceilMinutes earliest * minute ≤ block.start) ∧
    ∀ deadline ∈ task.deadline, block.stop ≤ floorMinutes deadline * minute
  pendingOnly : ∀ block ∈ preview.blocks, ∃ task ∈ tasks,
    task.id = block.taskId ∧ task.status = .pending
  unsplit : ∀ task ∈ tasks, task.splittable = false →
    blocksOf preview.blocks task.id = [] ∨
    ∃ block, blocksOf preview.blocks task.id = [block] ∧ block.minutes = task.durationMinutes
  accounted : ∀ task ∈ tasks, task.status = .pending →
    minutesOf (blocksOf preview.blocks task.id) +
      ((preview.missing task.id).map (·.remainingMinutes)).sum = task.durationMinutes ∧
    (preview.missing task.id).length ≤ 1
  locksKept : ∀ block ∈ request.previousBlocks, block.locked = true →
    (∃ task ∈ tasks, task.id = block.taskId ∧ task.status = .pending) → block ∈ preview.blocks

theorem shortfall_fst {blocks : List PlanBlock} {task : TaskRecord} {entry : UUID × Int}
    (h : entry ∈ shortfall blocks task) : entry.1 = task.id := by
  simp only [shortfall] at h
  split at h
  · cases h
    rfl
  · contradiction

/-- Among distinct tasks the shortfalls of one task are its own. -/
theorem filter_shortfalls {blocks : List PlanBlock} {tasks : List TaskRecord}
    (distinct : (tasks.map (·.id)).Nodup) {task : TaskRecord} (ht : task ∈ tasks) :
    (tasks.filterMap (shortfall blocks)).filter (·.1 = task.id) =
      (shortfall blocks task).toList := by
  induction tasks with
  | nil => simp at ht
  | cons head tasks ih =>
      rw [List.map_cons, List.nodup_cons] at distinct
      rw [← List.singleton_append, List.filterMap_append, List.filter_append]
      rcases List.mem_cons.mp ht with rfl | ht
      · have rest : (tasks.filterMap (shortfall blocks)).filter (·.1 = task.id) = [] := by
          refine List.filter_eq_nil_iff.mpr fun entry he => ?_
          obtain ⟨other, ho, hentry⟩ := List.mem_filterMap.mp he
          rw [shortfall_fst hentry, decide_eq_true_eq]
          exact fun heq => distinct.1 (List.mem_map.mpr ⟨other, ho, heq⟩)
        rw [rest, List.append_nil]
        cases hself : shortfall blocks task with
        | none => simp [hself]
        | some entry =>
            have hid := shortfall_fst (Option.mem_def.mpr hself)
            simp [hself, hid]
      · have hne : head.id ≠ task.id := fun heq =>
          distinct.1 (List.mem_map.mpr ⟨task, ht, heq.symm⟩)
        rw [ih distinct.2 ht]
        cases hself : shortfall blocks head with
        | none => simp [hself]
        | some entry =>
            have hid := shortfall_fst (Option.mem_def.mpr hself)
            simp [hself, hid, hne]

namespace Planner
variable {p : Planner}

theorem Sound.mem_fits {state : PlannerState} (grid : p.Grid) (sound : p.Sound state)
    {block : PlanBlock} (hb : block ∈ state.blocks) {task : TaskRecord}
    (ht : task ∈ p.tasks) (hid : task.id = block.taskId) : p.Fits task block.toTimeWindow := by
  obtain ⟨other, ho, heq, fits⟩ := sound.placed block hb
  have same : other = task := List.inj_on_of_nodup_map grid.snapshot.1
    (mem_pending.mp ho).1 ht (heq.trans hid.symm)
  exact same ▸ fits

theorem Allocated.unsplit {state : PlannerState} (grid : p.Grid)
    (inv : p.Allocated p.ordered state) {task : TaskRecord} (ht : task ∈ p.tasks)
    (hs : task.splittable = false) :
    blocksOf state.blocks task.id = [] ∨
    ∃ block, blocksOf state.blocks task.id = [block] ∧
      block.minutes = task.durationMinutes := by
  by_cases hnil : blocksOf state.blocks task.id = []
  · exact Or.inl hnil
  · right
    obtain ⟨block, hb⟩ := List.exists_mem_of_ne_nil _ hnil
    simp only [blocksOf, List.mem_filter, decide_eq_true_eq] at hb
    obtain ⟨other, ho, heq, -⟩ := inv.sound.placed block hb.1
    have same : other = task := List.inj_on_of_nodup_map grid.snapshot.1
      (mem_pending.mp ho).1 ht (heq.trans hb.2)
    subst same
    obtain ⟨hone, hmin⟩ := (inv.share other ho).2 hs hnil
    obtain ⟨piece, hpiece⟩ := List.length_eq_one_iff.mp hone
    rw [hpiece] at hmin
    exact ⟨piece, hpiece, by simpa using hmin⟩

/-- Placed and listed minutes add up. -/
theorem Allocated.balance {state : PlannerState} (grid : p.Grid)
    (inv : p.Allocated p.ordered state) {task : TaskRecord} (ht : task ∈ p.pending) :
    minutesOf (blocksOf state.blocks task.id) +
      ((state.unscheduled.filter (·.taskId = task.id)).map (·.remainingMinutes)).sum =
        task.durationMinutes ∧
    (state.unscheduled.filter (·.taskId = task.id)).length ≤ 1 := by
  have distinct : (p.ordered.map (·.id)).Nodup :=
    ((sortBy_perm p.order p.pending).map (·.id)).nodup_iff.mpr grid.pending_nodup
  have entries : (state.unscheduled.filter (·.taskId = task.id)).map (·.amount) =
      (shortfall state.blocks task).toList := by
    rw [← filter_shortfalls distinct (mem_ordered.mpr ht), ← inv.accounted, List.filter_map]
    rfl
  have hlength := congrArg List.length entries
  have hminutes : (state.unscheduled.filter (·.taskId = task.id)).map (·.remainingMinutes) =
      (shortfall state.blocks task).toList.map Prod.snd := by
    rw [← entries, List.map_map]
    rfl
  rw [hminutes]
  rw [List.length_map] at hlength
  rw [hlength]
  have hshare := (inv.share task ht).1
  simp only [shortfall]
  split
  · simp
  · simp only [Option.toList_none, List.map_nil, List.sum_nil, List.length_nil]
    omega

end Planner

theorem buildPreview_sound {zoneInfo : String → Zone} {request : PreviewRequest}
    {tasks : List TaskRecord} {preferences : PreferenceValues} {timezoneName : String}
    {now : Int} {preferenceVersion : Nat} {searchBudget : Int} {preview : PlanPreview}
    (h : buildPreview zoneInfo request tasks preferences timezoneName now preferenceVersion
      searchBudget = .ok preview) :
    PreviewSound (zoneInfo timezoneName) request tasks now preview := by
  obtain ⟨p, state, hinit, locksOk, inv, hstart, hstop, hblocks, -, hunscheduled, -⟩ :=
    buildPreview_ok h
  have grid := Planner.init_grid hinit
  obtain ⟨hrequest, -, -, hnow, htasks, hs, he⟩ := Planner.init_fields hinit
  subst hrequest hnow htasks
  have perm : preview.blocks.Perm state.blocks := hblocks ▸ sortBy_perm _ _
  have own : ∀ taskId, (blocksOf preview.blocks taskId).Perm (blocksOf state.blocks taskId) :=
    blocksOf_perm perm
  have fits : ∀ block ∈ preview.blocks, ∃ task ∈ p.pending,
      task.id = block.taskId ∧ p.Fits task block.toTimeWindow :=
    fun block hb => inv.sound.placed block (perm.mem_iff.mp hb)
  refine ⟨⟨hstart.trans hs, hstop.trans he⟩, ?_, ?_, ?_, ?_, ?_, ?_, ?_, ?_⟩
  · exact inv.sound.apart.perm perm.symm
  · intro block hb event hevent
    obtain ⟨task, -, -, hfit⟩ := fits block hb
    exact hfit.apart_fixedEvents grid hevent
  · intro block hb t ht
    obtain ⟨task, -, -, hfit⟩ := fits block hb
    obtain ⟨hl, hr⟩ := hfit.inside grid
    refine ⟨?_, hfit.instant grid ht⟩
    unfold TimeWindow.Contains at ht ⊢
    omega
  · intro block hb task ht hid
    exact (inv.sound.mem_fits grid (perm.mem_iff.mp hb) ht hid).bounds grid
  · intro block hb
    obtain ⟨task, ht, hid, -⟩ := fits block hb
    exact ⟨task, (Planner.mem_pending.mp ht).1, hid, (Planner.mem_pending.mp ht).2⟩
  · intro task ht hsplit
    rcases inv.unsplit grid ht hsplit with hnil | ⟨block, hone, hmin⟩
    · left
      exact List.perm_nil.mp (hnil ▸ own task.id)
    · right
      exact ⟨block, List.perm_singleton.mp (hone ▸ own task.id), hmin⟩
  · intro task ht hpending
    rw [minutesOf_perm (own task.id)]
    simp only [PlanPreview.missing, hunscheduled]
    exact inv.balance grid (Planner.mem_pending.mpr ⟨ht, hpending⟩)
  · rintro block hb hlocked ⟨task, ht, hid, hpending⟩
    have hp := Planner.mem_pending.mpr ⟨ht, hpending⟩
    refine perm.mem_iff.mpr (inv.locks_kept task hp block ?_)
    exact Planner.mem_locks.mpr ⟨(Planner.mem_previous hp).mpr ⟨hb, hid.symm⟩, hlocked⟩

/-- Monday 2026-09-21 in UTC, from nine to eleven with a lecture at ten: one
locked hour and half an hour that may be split. -/
def lectureDay : Int := 739880

def lectureTime (minutes : Int) : Int := Zone.utc.dayStart lectureDay + minutes * minute

def essay : TaskRecord where
  title := "essay"
  description := ""
  durationMinutes := 60
  priority := 5
  splittable := false
  preferredPeriod := .any
  earliestStart := none
  deadline := none
  id := 1
  userId := 1
  clientRequestId := 1
  status := .pending
  version := 1
  createdAt := 0
  updatedAt := 0
  recurrenceId := none
  occurrenceDate := none
  valid := by decide

def reading : TaskRecord where
  title := "reading"
  description := ""
  durationMinutes := 30
  priority := 5
  splittable := true
  preferredPeriod := .morning
  earliestStart := none
  deadline := some (lectureTime 660)
  id := 2
  userId := 1
  clientRequestId := 2
  status := .pending
  version := 1
  createdAt := 0
  updatedAt := 0
  recurrenceId := none
  occurrenceDate := none
  valid := by decide

def lectureOpening : TimeWindow := ⟨lectureTime 540, lectureTime 660, by decide⟩

def lectureFirstHour : TimeWindow := ⟨lectureTime 540, lectureTime 600, by decide⟩

def lectureSecondHour : TimeWindow := ⟨lectureTime 600, lectureTime 660, by decide⟩

def lecture : FixedEvent := ⟨⟨lectureTime 600, lectureTime 630, by decide⟩, "lecture", by decide⟩

def lectureRequest : PreviewRequest where
  startDate := lectureDay
  days := 1
  taskIds := [1, 2]
  availability := [lectureOpening]
  fixedEvents := [lecture]
  previousBlocks := [⟨lectureFirstHour, 1, true⟩]
  planningValid := by decide
  previousValid := by decide

theorem buildPreview_sound_lecture :
    ∃ preview, buildPreview (fun _ => Zone.utc) lectureRequest [essay, reading]
        PreferenceValues.default "UTC" (lectureTime 480) 1 250000 = .ok preview ∧
      PreviewSound Zone.utc lectureRequest [essay, reading] (lectureTime 480) preview := by
  have returned : okAnd (buildPreview (fun _ => Zone.utc) lectureRequest [essay, reading]
      PreferenceValues.default "UTC" (lectureTime 480) 1 250000) (fun _ => true) = true := by
    decide +kernel
  obtain ⟨preview, h, -⟩ := exists_of_okAnd returned
  exact ⟨preview, h, buildPreview_sound h⟩

end SmartPlanner
