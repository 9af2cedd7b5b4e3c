/-!
`errors.py`: application errors with a status, a stable code and a message, and
the other exceptions the modelled functions raise.
-/

namespace SmartPlanner

/-- The `code` texts of the application errors. -/
inductive ErrorCode
  | pastPlanningDate
  | invalidLocalDay
  | unsupportedTimeBoundary
  | availabilityOutsideHorizon
  | eventOutsideHorizon
  | fixedEventConflict
  | lockedDurationConflict
  | lockedBlockConflict
  | inactiveTaskBlock
  | invalidScheduleLayout
  | notFound
  | staleVersion
  | invalidTaskChange
  | requestIdConflict
  | requestAlreadyDeleted
  | fixedEventNotFound
  | staleFixedEvent
  | nonexistentOccurrenceDay
  | occurrenceTooLong
  | scheduleSourcesChanged
  | startedBlockConflict
  | pastBlock
  | scheduleHorizonChanged
  | fixedEventOutsideSavedHorizon
  | taskAlreadyScheduled
  | staleScheduleVersion
  | scheduleVersionLimit
  | scheduleOverlap
  | historyBoundary
  | plannerBusy
  | tooManyFixedEvents
  | emailUnavailable
  | authRateLimit
deriving DecidableEq, Repr

def ErrorCode.text : ErrorCode → String
  | .pastPlanningDate => "past_planning_date"
  | .invalidLocalDay => "invalid_local_day"
  | .unsupportedTimeBoundary => "unsupported_time_boundary"
  | .availabilityOutsideHorizon => "availability_outside_horizon"
  | .eventOutsideHorizon => "event_outside_horizon"
  | .fixedEventConflict => "fixed_event_conflict"
  | .lockedDurationConflict => "locked_duration_conflict"
  | .lockedBlockConflict => "locked_block_conflict"
  | .inactiveTaskBlock => "inactive_task_block"
  | .invalidScheduleLayout => "invalid_schedule_layout"
  | .notFound => "not_found"
  | .staleVersion => "stale_version"
  | .invalidTaskChange => "invalid_task_change"
  | .requestIdConflict => "request_id_conflict"
  | .requestAlreadyDeleted => "request_already_deleted"
  | .fixedEventNotFound => "fixed_event_not_found"
  | .staleFixedEvent => "stale_fixed_event"
  | .nonexistentOccurrenceDay => "nonexistent_occurrence_day"
  | .occurrenceTooLong => "occurrence_too_long"
  | .scheduleSourcesChanged => "schedule_sources_changed"
  | .startedBlockConflict => "started_block_conflict"
  | .pastBlock => "past_block"
  | .scheduleHorizonChanged => "schedule_horizon_changed"
  | .fixedEventOutsideSavedHorizon => "fixed_event_outside_saved_horizon"
  | .taskAlreadyScheduled => "task_already_scheduled"
  | .staleScheduleVersion => "stale_schedule_version"
  | .scheduleVersionLimit => "schedule_version_limit"
  | .scheduleOverlap => "schedule_overlap"
  | .historyBoundary => "history_boundary"
  | .plannerBusy => "planner_busy"
  | .tooManyFixedEvents => "too_many_fixed_events"
  | .emailUnavailable => "email_unavailable"
  | .authRateLimit => "auth_rate_limit"

/-- `AppError(status, code, message)`. -/
structure AppError where
  status : Nat
  code : ErrorCode
  message : String
deriving DecidableEq, Repr

/-- An exception that leaves a modelled function: an application error, a
pydantic `ValidationError`, a plain `ValueError`, `StaleTaskVersion`, a
constraint violation reported by the database driver, or the `OverflowError` of
a datetime outside the years 1 to 9999. -/
inductive PyError
  | app (error : AppError)
  | validation
  | value
  | staleTaskVersion
  | database
  | overflow
deriving DecidableEq, Repr

def AppError.notFound : AppError :=
  ⟨404, .notFound, "این مورد پیدا نشد."⟩

def AppError.staleVersion : AppError :=
  ⟨409, .staleVersion, "این کار تغییر کرده است؛ اطلاعات تازه را دریافت کنید."⟩

end SmartPlanner
