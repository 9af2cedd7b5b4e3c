import SmartPlanner.PlanningModels

/-!
`schedule_models.py`: saved layouts, the commands on them and what the store
answers. A `dict` keyed by task is its association list in key order, so equal
dictionaries are equal lists.
-/

namespace SmartPlanner

structure ScheduleContent extends PlanningWindow where
  blocks : List PlanBlock
  blocksValid : blocks.length ≤ 512 ∧ ∀ block ∈ blocks, block.taskId ∈ taskIds
deriving DecidableEq

/-- `exact_source_versions` and the field contracts. -/
def CandidateValid (title : String) (content : ScheduleContent)
    (taskVersions : List (UUID × Nat)) (preferenceVersion : Nat) : Prop :=
  TitleValid title ∧ (taskVersions.Pairwise fun a b => a.1 < b.1) ∧
  (∀ entry ∈ taskVersions, entry.1 ∈ content.taskIds ∧ VersionValid entry.2) ∧
  (∀ id ∈ content.taskIds, id ∈ taskVersions.map Prod.fst) ∧
  VersionValid preferenceVersion

instance (title : String) (content : ScheduleContent) (taskVersions : List (UUID × Nat))
    (preferenceVersion : Nat) :
    Decidable (CandidateValid title content taskVersions preferenceVersion) :=
  inferInstanceAs (Decidable (_ ∧ _))

/-- The fields `_validate` reads of a request or of a saved state. -/
structure Candidate where
  title : String
  content : ScheduleContent
  taskVersions : List (UUID × Nat)
  preferenceVersion : Nat
  candidateValid : CandidateValid title content taskVersions preferenceVersion
deriving DecidableEq

structure ScheduleCreate extends Candidate where
  clientRequestId : UUID
deriving DecidableEq

structure ScheduleReplace extends ScheduleCreate where
  expectedVersion : Nat
  expectedValid : VersionValid expectedVersion
deriving DecidableEq

structure HistoryCommand where
  clientRequestId : UUID
  expectedVersion : Nat
  expectedValid : VersionValid expectedVersion
deriving DecidableEq

/-- `taskTitles` follows the order of the selected tasks. -/
structure SavedState extends Candidate where
  taskTitles : List (UUID × String)
  unscheduled : List UnscheduledTask
  ignoredTaskIds : List UUID
  warnings : List Warning
deriving DecidableEq

inductive Direction
  | undo | redo
deriving DecidableEq, Repr

structure SourceStatus where
  stale : Bool
  changedTaskIds : List UUID
  missingTaskIds : List UUID
  preferencesChanged : Bool
deriving DecidableEq

structure SavedSchedule where
  id : UUID
  version : Nat
  historyRevision : Nat
  timezone : String
  horizon : TimeWindow
  state : SavedState
  sources : SourceStatus
  canUndo : Bool
  canRedo : Bool
  createdAt : Int
  updatedAt : Int
deriving DecidableEq

structure ScheduleResult where
  schedule : SavedSchedule
  replayed : Bool
  appliedVersion : Nat
deriving DecidableEq

structure ScheduleSummary where
  id : UUID
  title : String
  version : Nat
  timezone : String
  horizon : TimeWindow
  updatedAt : Int

structure HistoryEntry where
  revision : Nat
  title : String
  current : Bool
  createdAt : Int
deriving DecidableEq

theorem Candidate.versions_distinct (candidate : Candidate) :
    (candidate.taskVersions.map Prod.fst).Nodup := by
  have h := candidate.candidateValid.2.1
  rw [List.Nodup, List.pairwise_map]
  exact h.imp fun hlt => Nat.ne_of_lt hlt

theorem Candidate.selected_iff (candidate : Candidate) (id : UUID) :
    id ∈ candidate.taskVersions.map Prod.fst ↔ id ∈ candidate.content.taskIds := by
  obtain ⟨-, -, h₁, h₂, -⟩ := candidate.candidateValid
  constructor
  · intro h
    obtain ⟨entry, he, rfl⟩ := List.mem_map.mp h
    exact (h₁ entry he).1
  · exact h₂ id

end SmartPlanner
