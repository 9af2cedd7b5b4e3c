import SmartPlanner.Library.Outcome
import SmartPlanner.Library.Sorting
import SmartPlanner.Library.Intervals
import SmartPlanner.Library.Table
import SmartPlanner.Library.History
import SmartPlanner.Library.Runs
import SmartPlanner.PreviewSound
import SmartPlanner.PreviewAccepted
import SmartPlanner.NoDoubleBooking
import SmartPlanner.HistoryRefinement
import SmartPlanner.FreshView
import SmartPlanner.UndoRedo
import SmartPlanner.SavedCommitments
import SmartPlanner.PreviewRefusals
import SmartPlanner.DurableCommitments
import SmartPlanner.Replaceable
import SmartPlanner.Replanning
import SmartPlanner.MinimalDisruption
import SmartPlanner.PreviewIdempotent
import SmartPlanner.OrderIndependence
import SmartPlanner.LayoutExact
import SmartPlanner.PlacementsProtected
import SmartPlanner.ExactlyOnce
import SmartPlanner.Occurrences
import SmartPlanner.Library.Sessions
import SmartPlanner.Library.CreateOnce
import SmartPlanner.RecurrenceRows
import SmartPlanner.CreationOnce
import SmartPlanner.Library.Optimistic
import SmartPlanner.TaskVersions
import SmartPlanner.Library.Unwinding
import SmartPlanner.Operations
import SmartPlanner.OwnerView
import SmartPlanner.OwnerSchedules
import SmartPlanner.OwnerWrites
import SmartPlanner.Noninterference
import SmartPlanner.NoSlotFound
import SmartPlanner.DeadlineReason
import SmartPlanner.Library.Counting
import SmartPlanner.Library.Stretches
import SmartPlanner.DayRanges
import SmartPlanner.NaiveSlot
import SmartPlanner.Library.Spacing
import SmartPlanner.RelaxedBreak
import SmartPlanner.WarningsExact
import SmartPlanner.Library.Civil
import SmartPlanner.Library.Decimal
import SmartPlanner.Timestamps
import SmartPlanner.TimestampQueries
import SmartPlanner.SentTimes
import SmartPlanner.StoredEvents
import SmartPlanner.TaskEdits
import SmartPlanner.TasksReadBack
import SmartPlanner.Library.Settling
import SmartPlanner.PlannerTime
import SmartPlanner.Availability
import SmartPlanner.Library.FixedWindows
import SmartPlanner.AuthLimiter
import SmartPlanner.Library.LaggingWindows
import SmartPlanner.OvertakingAttempts
import SmartPlanner.Library.Utf16
import SmartPlanner.Library.Lines
import SmartPlanner.PlannerExport
import SmartPlanner.IcsFolding
import SmartPlanner.Library.Csv
import SmartPlanner.CsvExport
import SmartPlanner.CalendarExport
import SmartPlanner.Library.Leases
import SmartPlanner.Accounts
import SmartPlanner.Server
import SmartPlanner.ServerSessions
import SmartPlanner.Library.Slots
import SmartPlanner.ServerLimits
import SmartPlanner.Library.Hex
import SmartPlanner.Library.Json
import SmartPlanner.JsonTexts
import SmartPlanner.ContractJson
import SmartPlanner.RequestDigests
import SmartPlanner.StoredStates
import SmartPlanner.SearchBudget
import SmartPlanner.EarlierTasks
import SmartPlanner.StaleSchedules
import SmartPlanner.MaximalPreview
import SmartPlanner.EditForms
import SmartPlanner.Library.ForeignKeys
import SmartPlanner.SchemaConstraints
import SmartPlanner.OnlyRefusals
import SmartPlanner.ServerFailures
import SmartPlanner.Library.JsonSize
import SmartPlanner.StateSizes
