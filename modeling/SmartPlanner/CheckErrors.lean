import SmartPlanner.ScheduleRepository

/-!
Which errors the checks raise. The planner answers a bad request with an
application error, and `history_boundary` is raised by `travel` alone.
-/

namespace SmartPlanner

open Intervals Outcome Sorting Tables

/-- An application error other than `history_boundary`. -/
def CheckError (e : PyError) : Prop :=
  ∃ error : AppError, e = .app error ∧ error.code ≠ .historyBoundary

/-- Any error but `history_boundary`. -/
def OffBoundary (e : PyError) : Prop := ∀ error, e = .app error → error.code ≠ .historyBoundary

theorem CheckError.of_code {error : AppError} (h : error.code ≠ .historyBoundary) :
    CheckError (.app error) :=
  ⟨error, rfl, h⟩

theorem CheckError.offBoundary (e : PyError) (h : CheckError e) : OffBoundary e := by
  obtain ⟨error, rfl, hcode⟩ := h
  intro other heq
  cases heq
  exact hcode

theorem offBoundary_validation : OffBoundary .validation := nofun

theorem offBoundary_value : OffBoundary .value := nofun

theorem offBoundary_database : OffBoundary .database := nofun

theorem raises_openWindows (start size : Int) (windows : List TimeWindow) (mask : Mask) :
    Raises CheckError (openWindows start size windows mask) := by
  induction windows generalizing mask with
  | nil => exact raises_ok mask
  | cons window windows ih =>
      simp only [openWindows]
      split
      · exact raises_error (.of_code (by decide))
      · exact ih _

theorem raises_blockEvents (start size : Int) (events : List FixedEvent) (busy : List Interval)
    (mask : Mask) : Raises CheckError (blockEvents start size events busy mask) := by
  induction events generalizing busy mask with
  | nil => exact raises_ok _
  | cons event events ih =>
      simp only [blockEvents]
      split
      · exact raises_error (.of_code (by decide))
      · split
        · exact raises_error (.of_code (by decide))
        · exact ih _ _

namespace Planner

/-- The constructor, up to a snapshot that does not match the selection. -/
theorem raises_init {S : PyError → Prop} (check : ∀ e, CheckError e → S e)
    {request : PreviewRequest} {tasks : List TaskRecord} (preferences : PreferenceValues)
    (zone : Zone) (now : Int) (mismatch : ¬ SnapshotMatches request.taskIds tasks → S .value) :
    Raises S (Planner.init request tasks preferences zone now) := by
  refine (raises_raiseIf (check _ (.of_code (by decide)))).bind fun _ _ => ?_
  refine (raises_raiseIf (check _ (.of_code (by decide)))).bind fun _ _ => ?_
  refine (raises_raiseIf (check _ (.of_code (by decide)))).bind fun _ _ => ?_
  refine Raises.bind ?_ fun _ _ => ?_
  · intro e h
    obtain ⟨hmismatch, rfl⟩ := raiseIf_error.mp h
    exact mismatch hmismatch
  refine ((raises_openWindows _ _ _ _).mono check).bind fun opened _ => ?_
  refine ((raises_blockEvents _ _ _ _ _).mono check).bind fun pair _ => ?_
  exact raises_ok _

variable (p : Planner)

theorem raises_reserveLocks (task : TaskRecord) (blocks : List PlanBlock) (state : PlannerState) :
    Raises CheckError (p.reserveLocks task blocks state) := by
  induction blocks generalizing state with
  | nil => exact raises_ok state
  | cons block blocks ih =>
      simp only [reserveLocks]
      split
      · exact ih _
      · exact raises_error (.of_code (by decide))

theorem raises_preservePrevious (state : PlannerState) :
    Raises CheckError (p.preservePrevious state) := by
  refine (raises_foldlM (fun state task => ?_) _ _).bind fun _ _ => raises_ok _
  exact (raises_raiseIf (.of_code (by decide))).bind fun _ _ => p.raises_reserveLocks task _ _

end Planner

theorem raises_relabelLockErrors {result : Except PyError PlannerState}
    (h : Raises CheckError result) : Raises CheckError (relabelLockErrors result) := by
  unfold relabelLockErrors
  split
  · split
    · exact raises_error (.of_code (by decide))
    · exact h
  · exact h

theorem offBoundary_missingEntry (blocks : List PlanBlock) (missing : List UnscheduledTask)
    (task : TaskRecord) : Raises OffBoundary (missingEntry blocks missing task) := by
  unfold missingEntry
  simp only
  split
  · refine Raises.bind ?_ fun _ _ => raises_ok _
    unfold UnscheduledTask.make
    split
    · exact raises_ok _
    · exact raises_error offBoundary_validation
  · exact raises_ok _

theorem offBoundary_inspectLayout (zoneInfo : String → Zone) (window : PlanningWindow)
    (blocks : List PlanBlock) (tasks : List TaskRecord) (preferences : PreferenceValues)
    (timezoneName : String) :
    Raises OffBoundary
      (inspectLayout zoneInfo window blocks tasks preferences timezoneName) := by
  refine (raises_raiseIf (CheckError.offBoundary _ (.of_code (by decide)))).bind fun _ _ => ?_
  refine Raises.bind ?_ fun request _ => ?_
  · unfold PreviewRequest.make
    split
    · exact raises_ok _
    · exact raises_error offBoundary_validation
  refine (Planner.raises_init CheckError.offBoundary _ _ _ fun _ => offBoundary_value).bind
    fun p _ => ?_
  refine ((raises_relabelLockErrors (p.raises_preservePrevious _)).mono
    CheckError.offBoundary).bind fun state _ => ?_
  refine (raises_foldlM (offBoundary_missingEntry blocks) _ _).bind fun missing _ => ?_
  refine Raises.bind ?_ fun horizon _ => raises_ok _
  unfold TimeWindow.make
  split
  · exact raises_ok _
  · exact raises_error offBoundary_validation

namespace ScheduleRepository
variable (store : Store)

theorem offBoundary_sources (owner : UUID) (candidate : Candidate)
    (previous : Option Candidate) :
    Raises OffBoundary (sources store owner candidate previous) := by
  have changed : OffBoundary (.app .scheduleSourcesChanged) :=
    CheckError.offBoundary _ (.of_code (by decide))
  unfold sources
  simp only
  split
  · exact raises_error changed
  · refine (raises_raiseIf changed).bind fun _ _ => ?_
    refine (raises_raiseIf changed).bind fun _ _ => ?_
    refine (raises_mapM fun taskId _ => ?_).bind fun tasks _ => ?_
    · unfold selectedTask
      split
      · unfold TaskRecord.modelValidate
        split
        · exact raises_ok _
        · exact raises_error offBoundary_validation
      · exact raises_error offBoundary_value
    · refine Raises.bind ?_ fun record _ => raises_ok _
      unfold PreferenceRecord.modelValidate
      split
      · exact raises_ok _
      · exact raises_error offBoundary_validation

theorem raises_protectPlacements (previous candidate : List PlanBlock) (live : List TaskRow)
    (now : Int) : Raises CheckError (protectPlacements previous candidate live now) := by
  refine (raises_forM (fun block => ?_) _).bind fun _ _ =>
    raises_raiseIf (.of_code (by decide))
  unfold protectBlock
  split
  · exact raises_ok _
  · split
    · exact (raises_raiseIf (.of_code (by decide))).bind fun _ _ =>
        raises_raiseIf (.of_code (by decide))
    · exact raises_ok _

theorem offBoundary_validate (zoneInfo : String → Zone) (owner : UUID) (candidate : Candidate)
    (zone : String) (previous : Option Candidate) (now : Int) :
    Raises OffBoundary (validate zoneInfo store owner candidate zone previous now) := by
  have check : ∀ {error : AppError}, error.code ≠ .historyBoundary → OffBoundary (.app error) :=
    fun h => CheckError.offBoundary _ (.of_code h)
  refine (offBoundary_sources store owner candidate previous).bind fun found _ => ?_
  refine (raises_raiseIf (check (by decide))).bind fun _ _ => ?_
  refine (raises_raiseIf (check (by decide))).bind fun _ _ => ?_
  refine ((raises_protectPlacements _ _ _ _).mono CheckError.offBoundary).bind fun _ _ => ?_
  refine (offBoundary_inspectLayout _ _ _ _ _ _).bind fun report _ => ?_
  refine (raises_raiseIf (check (by decide))).bind fun _ _ => ?_
  exact raises_ok _

theorem offBoundary_allocations (owner scheduleId : UUID) (state : Candidate) :
    Raises OffBoundary (allocations store owner scheduleId state) := by
  refine (raises_raiseIf (CheckError.offBoundary _ (.of_code (by decide)))).bind fun _ _ => ?_
  refine Raises.bind ?_ fun _ _ => raises_ok _
  unfold insertRows
  split
  · exact raises_ok _
  · exact raises_error offBoundary_database

theorem offBoundary_finish (owner scheduleId requestId : UUID) (digest : CommandDigest)
    (version : Nat) :
    Raises OffBoundary (finish store owner scheduleId requestId digest version) := by
  refine Raises.bind ?_ fun commands _ => ?_
  · unfold insertRow
    split
    · exact raises_ok _
    · exact raises_error offBoundary_database
  · refine Raises.bind ?_ fun _ _ => raises_ok _
    refine Raises.bind ?_ fun _ _ => raises_ok _
    have absent : OffBoundary (.app .notFound) := CheckError.offBoundary _ (.of_code (by decide))
    unfold header
    split
    · exact raises_error absent
    · split
      · exact raises_error absent
      · exact raises_ok _

end ScheduleRepository

end SmartPlanner
