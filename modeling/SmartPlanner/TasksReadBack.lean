import SmartPlanner.DurableCommitments
import SmartPlanner.RecurrenceRows
import SmartPlanner.TaskEdits

/-!
Stored tasks read back. Every reader validates a whole row, so one bad row would
make it fail; the writers leave none, whatever their clocks show.
-/

namespace SmartPlanner

open Outcome Runs Sorting Tables

/-- An error that is not a failed validation. -/
def NotInvalid (error : PyError) : Prop := error ≠ .validation

/-- The live patterns can be read: their versions are in range. -/
def PatternsValid (store : Store) : Prop :=
  ∀ row ∈ store.recurrences, row.deletedAt = none → VersionValid row.version

theorem Refusal.notInvalid (error : PyError) (h : Refusal error) : NotInvalid error := by
  obtain ⟨refused, rfl⟩ := h
  exact fun same => nomatch same

/-- A new row carries the contract of the fields it was inserted from. -/
theorem fresh_valid {fields : TaskFields} (valid : fields.Valid) (id owner clientRequestId : UUID)
    (stamp : Int) : (TaskRow.fresh id owner clientRequestId fields stamp).toTaskColumns.Valid :=
  ⟨valid, versionValid_one, Int.le_refl _, rfl⟩

/-- The window of an occurrence is a local day that the activity fits in. -/
theorem occurrenceWindow_fits {day : Int} {zone : Zone} {duration : Int} {window : Int × Int}
    (h : occurrenceWindow day zone duration = .ok window) :
    duration * minute ≤ window.2 - window.1 := by
  unfold occurrenceWindow at h
  simp only at h
  split at h
  · contradiction
  · split at h
    · contradiction
    · next fits =>
      cases h
      exact Int.not_lt.mp fits

/-- An occurrence carries the contract of a task, from the bounds of its pattern
and the length of its window. -/
theorem occurrenceRow_valid {owner id requestId : UUID} {series : RecurrenceRecord} {day : Int}
    {window : Int × Int} (fits : series.durationMinutes * minute ≤ window.2 - window.1)
    (stamp : Int) :
    (RecurrenceRepository.occurrenceRow owner series id requestId day window
      stamp).toTaskColumns.Valid := by
  obtain ⟨title, description, duration, priority, -⟩ := series.valid
  refine ⟨⟨title, description, ⟨duration.1, Int.le_trans duration.2 (by decide)⟩, priority, ?_⟩,
    versionValid_one, Int.le_refl _, rfl⟩
  intro earliest hearliest deadline hdeadline
  cases hearliest
  cases hdeadline
  exact fits

theorem raises_insertRow {κ α : Type} [DecidableEq κ] {key : α → κ} (table : Table key) (row : α) :
    Raises NotInvalid (insertRow table row) := by
  unfold insertRow
  split
  · exact raises_ok _
  · exact raises_error fun same => nomatch same

theorem raises_insertTask {store : Store} (row : TaskRow) :
    Raises NotInvalid (insertTask store row) := by
  have database : NotInvalid .database := fun same => nomatch same
  unfold insertTask
  refine (raises_raiseIf database).bind fun _ _ => ?_
  refine (raises_raiseIf database).bind fun _ _ => ?_
  refine (raises_raiseIf database).bind fun _ _ => ?_
  refine (raises_raiseIf database).bind fun _ _ => ?_
  exact (raises_insertRow _ _).bind fun _ _ => raises_ok _

theorem raises_occurrenceWindow (day : Int) (zone : Zone) (duration : Int) :
    Raises Refusal (occurrenceWindow day zone duration) := by
  unfold occurrenceWindow
  simp only
  split
  · exact raises_error ⟨_, rfl⟩
  · split
    · exact raises_error ⟨_, rfl⟩
    · exact raises_ok _

/-- The rows that are inserted pass the validation that follows. -/
theorem raises_insertOccurrences {store : Store} (zone : Zone) (owner : UUID)
    (series : RecurrenceRecord) (days : List Int) (fresh : Nat → UUID × UUID) (stamp : Int) :
    Raises NotInvalid
      (RecurrenceRepository.insertOccurrences store zone owner series days fresh stamp) := by
  unfold RecurrenceRepository.insertOccurrences
  refine Raises.bind ?_ fun rows hrows => ?_
  · unfold RecurrenceRepository.occurrenceRows
    refine raises_mapM fun entry _ => ?_
    have window := raises_occurrenceWindow entry.1 zone series.durationMinutes
    exact (window.mono Refusal.notInvalid).bind fun _ _ => raises_ok _
  · refine (raises_foldlM (fun _ row => raises_insertTask row) _ _).bind fun _ _ => ?_
    refine (raises_mapM fun row hrow => ?_).bind fun _ _ => raises_ok _
    obtain ⟨entry, -, hentry⟩ := source_of_mapM_ok hrows row hrow
    simp only [bind_ok, pure_eq_ok, Except.ok.injEq] at hentry
    obtain ⟨window, hwindow, rfl⟩ := hentry
    exact raises_modelValidate (occurrenceRow_valid (occurrenceWindow_fits hwindow) stamp)

section
variable {store : Store} (sources : SourcesValid store)
include sources

namespace Repository

theorem raises_getTask (owner taskId : UUID) :
    Raises (fun error => error = .app .notFound) (getTask store owner taskId) := by
  unfold getTask
  split
  · next row hrow =>
    have hguard := List.find?_some hrow
    simp only [Bool.and_eq_true, decide_eq_true_eq] at hguard
    exact raises_modelValidate (sources.tasks row (List.mem_of_find?_eq_some hrow) hguard.2)
  · exact raises_error rfl

theorem listTasks_total (owner : UUID) (limit offset : Nat) :
    ∃ tasks, listTasks store owner limit offset = .ok tasks := by
  unfold listTasks
  refine mapM_total fun row hrow => ?_
  have hmem := List.mem_of_mem_drop (List.mem_of_mem_take hrow)
  rw [List.mem_reverse, mem_sortBy, Table.mem_select] at hmem
  simp only [Bool.and_eq_true, decide_eq_true_eq] at hmem
  exact ⟨_, modelValidate_valid (sources.tasks row hmem.1 hmem.2.2)⟩

theorem raises_createTask (owner : UUID) (task : TaskCreate) (id : UUID) (stamp : Int) :
    Raises NotInvalid (createTask store owner task id stamp) := by
  have notInvalid : ∀ error : AppError, NotInvalid (.app error) := fun _ same => nomatch same
  unfold createTask
  refine (raises_raiseIf fun same => nomatch same).bind fun _ _ => ?_
  split
  · next existing hfind =>
    refine (raises_raiseIf (notInvalid _)).bind fun _ _ => ?_
    refine (raises_raiseIf (notInvalid _)).bind fun _ hlive => ?_
    rw [raiseIf_ok, not_not] at hlive
    exact (raises_modelValidate (sources.tasks existing (List.mem_of_find?_eq_some hfind)
      hlive)).bind fun _ _ => raises_ok _
  · refine (raises_insertTask _).bind fun _ _ => ?_
    exact (raises_modelValidate (fresh_valid task.valid id owner task.clientRequestId
      stamp)).bind fun _ _ => raises_ok _

theorem raises_deleteTask (owner taskId : UUID) (expectedVersion : Nat) (stamp : Int) :
    Raises Refusal (deleteTask store owner taskId expectedVersion stamp) := by
  unfold deleteTask
  refine ((raises_getTask sources owner taskId).mono fun _ h => ⟨_, h⟩).bind fun _ _ => ?_
  refine (raises_raiseIf ⟨_, rfl⟩).bind fun _ _ => ?_
  simp only
  split
  · exact raises_error ⟨_, rfl⟩
  · exact raises_ok _

end Repository

namespace RecurrenceRepository

theorem raises_materialize (patterns : PatternsValid store) (zoneInfo : String → Zone)
    (owner recurrenceId : UUID) (request : OccurrenceRequest) (fresh : Nat → UUID × UUID)
    (now stamp : Int) :
    Raises NotInvalid
      (materialize store zoneInfo owner recurrenceId request fresh now stamp) := by
  unfold materialize
  refine Raises.bind ?_ fun series _ => ?_
  · unfold get
    split
    · next row hrow =>
      have hguard := List.find?_some hrow
      simp only [Bool.and_eq_true, decide_eq_true_eq] at hguard
      unfold RecurrenceRecord.modelValidate
      rw [dif_pos (patterns row (List.mem_of_find?_eq_some hrow) hguard.2)]
      exact raises_ok _
    · exact raises_error fun same => nomatch same
  · refine (raises_raiseIf fun same => nomatch same).bind fun _ _ => ?_
    refine (raises_mapM fun row hrow => ?_).bind fun _ _ => ?_
    · rw [List.mem_filter, mem_sortBy, Table.mem_select] at hrow
      exact raises_modelValidate (sources.tasks row hrow.1.1 (of_decide_eq_true hrow.2))
    · exact (raises_insertOccurrences _ _ _ _ _ _).bind fun _ _ => raises_ok _

end RecurrenceRepository

end

section
variable {store store' : Store}

namespace RecurrenceRepository

theorem create_patterns {owner id : UUID} {data : RecurrenceCreate} {stamp : Int}
    {answer : RecurrenceRecord × Bool}
    (h : create store owner data id stamp = .ok (answer, store')) (patterns : PatternsValid store) :
    PatternsValid store' := by
  unfold create at h
  split at h
  · simp only [bind_ok, pure_eq_ok, Except.ok.injEq, Prod.mk.injEq] at h
    obtain ⟨recurrences, hinsert, result, -, -, rfl⟩ := h
    intro row hrow hlive
    rcases (Table.mem_insert? (insertRow_ok.mp hinsert) row).mp hrow with old | rfl
    · exact patterns row old hlive
    · exact versionValid_one
  · contradiction
  · simp only [raiseIf_bind_ok] at h
    simp only [bind_ok, pure_eq_ok, Except.ok.injEq, Prod.mk.injEq] at h
    obtain ⟨-, -, result, -, -, rfl⟩ := h
    exact patterns

/-- The written row was validated before the transaction ended. -/
theorem replace_patterns {owner recurrenceId : UUID} {data : RecurrenceReplace} {stamp : Int}
    {answer : RecurrenceRecord}
    (h : replace store owner recurrenceId data stamp = .ok (answer, store'))
    (patterns : PatternsValid store) : PatternsValid store' := by
  unfold replace at h
  simp only [bind_ok] at h
  obtain ⟨current, -, -, -, h⟩ := h
  split at h
  · contradiction
  · next found hfound =>
    simp only [bind_ok, pure_eq_ok, Except.ok.injEq, Prod.mk.injEq] at h
    obtain ⟨result, hresult, -, rfl⟩ := h
    have written : VersionValid (found.version + 1) := by
      unfold RecurrenceRecord.modelValidate at hresult
      split at hresult
      · next valid => exact valid
      · contradiction
    intro row hrow hlive
    simp only [Table.mem_update] at hrow
    obtain ⟨old, hold, rfl⟩ := hrow
    by_cases howned : owned owner recurrenceId old = true
    · have same : old = found := store.recurrences.eq_of_key hold
        (List.mem_of_find?_eq_some hfound)
        ((owned_iff.mp howned).1.trans (owned_iff.mp (List.find?_some hfound)).1.symm)
      rw [if_pos howned, same]
      exact written
    · rw [if_neg howned] at hlive ⊢
      exact patterns old hold hlive

theorem delete_patterns {owner recurrenceId : UUID} {expectedVersion : Nat} {stamp : Int}
    (h : delete store owner recurrenceId expectedVersion stamp = .ok store')
    (patterns : PatternsValid store) : PatternsValid store' := by
  unfold delete at h
  simp only [bind_ok, pure_eq_ok, Except.ok.injEq] at h
  obtain ⟨current, -, -, -, rfl⟩ := h
  intro row hrow hlive
  simp only [Table.mem_update] at hrow
  obtain ⟨old, hold, rfl⟩ := hrow
  by_cases howned : owned owner recurrenceId old = true
  · rw [if_pos howned] at hlive
    cases hlive
  · rw [if_neg howned] at hlive ⊢
    exact patterns old hold hlive

end RecurrenceRepository

theorem step_patterns {zoneInfo : String → Zone} (store : Store) (command : Command)
    (patterns : PatternsValid store) : PatternsValid (step zoneInfo store command) := by
  unfold step
  split
  · next store' h =>
    cases command with
    | deleteRecurrence => exact RecurrenceRepository.delete_patterns h patterns
    | createRecurrence =>
        obtain ⟨answer, h⟩ := snd_map_ok h
        exact RecurrenceRepository.create_patterns h patterns
    | replaceRecurrence =>
        obtain ⟨answer, h⟩ := snd_map_ok h
        exact RecurrenceRepository.replace_patterns h patterns
    | _ =>
        intro row hrow
        rw [(perform_writes h).unwritten.2 Area.noConfusion] at hrow
        exact patterns row hrow
  · exact patterns

theorem reached_patterns (zoneInfo : String → Zone) (commands : List Command) :
    PatternsValid (reached zoneInfo commands) :=
  run_invariant (fun row hrow => absurd hrow (Table.not_mem_empty row)) step_patterns commands

end

theorem raises_map {α β : Type} {S : PyError → Prop} {x : Except PyError α} {f : α → β}
    (h : Raises S x) : Raises S (f <$> x) :=
  h.bind fun _ _ => raises_ok _

/-- A command that writes tasks never trips over a validation of its own. -/
theorem perform_notInvalid {zoneInfo : String → Zone} {store : Store}
    (sources : SourcesValid store) (patterns : PatternsValid store) (command : Command)
    (tasks : command.area = .tasks) : Raises NotInvalid (perform zoneInfo store command) := by
  cases command with
  | createTask owner task id stamp =>
      exact raises_map (Repository.raises_createTask sources owner task id stamp)
  | updateTask owner taskId patch stamp =>
      refine raises_map fun error h => ?_
      rcases updateTask_error sources h with (rfl | rfl | rfl) | ⟨rfl, -⟩ <;>
        exact fun same => nomatch same
  | deleteTask owner taskId expectedVersion stamp =>
      exact (Repository.raises_deleteTask sources owner taskId expectedVersion stamp).mono
        Refusal.notInvalid
  | materialize owner recurrenceId request fresh now stamp =>
      exact raises_map (RecurrenceRepository.raises_materialize sources patterns zoneInfo owner
        recurrenceId request fresh now stamp)
  | _ => cases tasks

/-- In every reachable store, whatever clocks the commands read, every live task
row satisfies the contract of a stored record, so no reader and no writer of tasks
fails for a row that was left behind. -/
theorem reached_tasksReadBack (zoneInfo : String → Zone) (commands : List Command) :
    (∀ row ∈ (reached zoneInfo commands).tasks, row.deletedAt = none →
      row.toTaskColumns.Valid) ∧
    (∀ owner taskId, Raises (fun error => error = .app .notFound)
      (Repository.getTask (reached zoneInfo commands) owner taskId)) ∧
    (∀ owner limit offset, ∃ tasks,
      Repository.listTasks (reached zoneInfo commands) owner limit offset = .ok tasks) ∧
    (∀ owner taskIds, Raises Refusal
      (Repository.planningInputs (reached zoneInfo commands) owner taskIds)) ∧
    (∀ command : Command, command.area = .tasks →
      Raises NotInvalid (perform zoneInfo (reached zoneInfo commands) command)) := by
  have sources := (storeOk_reached zoneInfo commands).sources
  exact ⟨sources.tasks, Repository.raises_getTask sources, Repository.listTasks_total sources,
    Repository.raises_planningInputs sources,
    perform_notInvalid sources (reached_patterns zoneInfo commands)⟩

end SmartPlanner
