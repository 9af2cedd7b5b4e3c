import SmartPlanner.TaskRows
import SmartPlanner.StoreReached

/-!
Occurrences are created once and accounted for completely. A window of a pattern
has three sources of dates: the rows already generated, deleted ones included,
and the days the present pattern selects. An answer lists each of them in
exactly one of its lists.
-/

namespace SmartPlanner

open Outcome Runs Sorting Tables

def OccurrenceRequest.Covers (request : OccurrenceRequest) (day : Int) : Prop :=
  request.startDate ≤ day ∧ day < request.startDate + request.days

/-- A task was once generated for this day of the pattern. -/
def HasRow (store : Store) (owner recurrenceId : UUID) (day : Int) : Prop :=
  ∃ row ∈ store.tasks.rows, row.userId = owner ∧ row.recurrenceId = some recurrenceId ∧
    row.occurrenceDate = some day

instance (store : Store) (owner recurrenceId : UUID) (day : Int) :
    Decidable (HasRow store owner recurrenceId day) :=
  inferInstanceAs (Decidable (∃ row ∈ store.tasks.rows, _))

/-- The days of a window that the pattern selects. -/
def selectedDates (values : RecurrenceValues) (request : OccurrenceRequest) : List Int :=
  occurrenceDates values request.startDate request.days

def taskDates (tasks : List TaskRecord) : List Int := tasks.filterMap (·.occurrenceDate)

def OccurrenceResult.dates (result : OccurrenceResult) : List Int :=
  taskDates result.tasks ++ result.deletedDates ++ result.skippedPastDates

/-- What an answer says of its window, and what was written. -/
structure Accounted (store : Store) (owner recurrenceId : UUID) (request : OccurrenceRequest)
    (values : RecurrenceValues) (today : Int) (result : OccurrenceResult) (store' : Store) :
    Prop where
  once : result.dates.Nodup
  dated : ∀ task ∈ result.tasks, task.occurrenceDate ≠ none
  union : ∀ day, day ∈ result.dates ↔
    (request.Covers day ∧ HasRow store owner recurrenceId day) ∨ day ∈ selectedDates values request
  skipped : ∀ day, day ∈ result.skippedPastDates ↔
    day ∈ selectedDates values request ∧ day < today ∧ ¬ HasRow store owner recurrenceId day
  created : result.createdCount = ((selectedDates values request).filter fun day =>
    today ≤ day ∧ ¬ HasRow store owner recurrenceId day).length
  inserted : ∃ rows, store'.tasks.rows = store.tasks.rows ++ rows ∧
    rows.length = result.createdCount
  others : store' = { store with tasks := store'.tasks }

section
variable {store store' : Store} {owner recurrenceId : UUID} {request : OccurrenceRequest}

/-- The rows that `materialize` reads, in id order. -/
def windowRows (store : Store) (owner recurrenceId : UUID) (request : OccurrenceRequest) :
    List TaskRow :=
  sortBy (·.id) (store.tasks.select fun row =>
    row.userId = owner && row.recurrenceId = some recurrenceId &&
      row.occurrenceDate.any fun day =>
        request.startDate ≤ day && day < request.startDate + request.days)

theorem mem_windowRows {row : TaskRow} :
    row ∈ windowRows store owner recurrenceId request ↔
      row ∈ store.tasks ∧ row.userId = owner ∧ row.recurrenceId = some recurrenceId ∧
        ∃ day, row.occurrenceDate = some day ∧ request.Covers day := by
  unfold windowRows OccurrenceRequest.Covers
  simp only [mem_sortBy, Table.mem_select, Bool.and_eq_true, decide_eq_true_eq,
    Option.any_eq_true, and_assoc]

def existingDates (store : Store) (owner recurrenceId : UUID) (request : OccurrenceRequest) :
    List Int :=
  (windowRows store owner recurrenceId request).filterMap (·.occurrenceDate)

theorem mem_existingDates {day : Int} :
    day ∈ existingDates store owner recurrenceId request ↔
      request.Covers day ∧ HasRow store owner recurrenceId day := by
  unfold existingDates HasRow
  simp only [List.mem_filterMap, mem_windowRows]
  constructor
  · rintro ⟨row, ⟨hrow, howner, hseries, day', hday, hcovers⟩, hsame⟩
    obtain rfl := Option.some.inj (hday.symm.trans hsame)
    exact ⟨hcovers, row, hrow, howner, hseries, hday⟩
  · rintro ⟨hcovers, row, hrow, howner, hseries, hday⟩
    exact ⟨row, ⟨hrow, howner, hseries, day, hday, hcovers⟩, hday⟩

/-- The unique key of the table makes the generated dates distinct. -/
theorem existingDates_nodup (keys : TaskKeys store) :
    (existingDates store owner recurrenceId request).Nodup := by
  unfold existingDates
  rw [List.Nodup, List.pairwise_filterMap]
  have distinct : (windowRows store owner recurrenceId request).Nodup := by
    refine (sortBy_perm _ _).nodup_iff.mpr ?_
    exact (Table.select_distinct store.tasks _).of_map _
  refine distinct.imp_of_mem fun {a b} ha hb hne day hday day' hday' hsame => hne ?_
  obtain ⟨hrowA, hownerA, hseriesA, -⟩ := mem_windowRows.mp ha
  obtain ⟨hrowB, hownerB, hseriesB, -⟩ := mem_windowRows.mp hb
  refine keys.occurrences a hrowA b hrowB (hownerA.trans hownerB.symm) ?_
    (hseriesA.trans hseriesB.symm) (by rw [hday, hday', hsame])
  rw [hseriesA]
  exact Option.some_ne_none _

theorem selectedDates_covered {values : RecurrenceValues} {day : Int}
    (h : day ∈ selectedDates values request) : request.Covers day := by
  unfold selectedDates occurrenceDates at h
  split at h
  · obtain ⟨offset, hoffset, rfl⟩ := List.mem_map.mp (List.mem_filter.mp h).1
    have hlt := List.mem_range.mp hoffset
    unfold OccurrenceRequest.Covers
    omega
  · exact absurd h List.not_mem_nil

theorem selectedDates_nodup (values : RecurrenceValues) (request : OccurrenceRequest) :
    (selectedDates values request).Nodup := by
  unfold selectedDates occurrenceDates
  split
  · refine (List.Nodup.map (fun a b hab => ?_) List.nodup_range).filter _
    simpa using hab
  · exact List.nodup_nil

/-- The selected days that have no row yet. -/
def missingDates (store : Store) (owner recurrenceId : UUID) (request : OccurrenceRequest)
    (values : RecurrenceValues) : List Int :=
  (selectedDates values request).filter fun day =>
    day ∉ existingDates store owner recurrenceId request

def newDates (store : Store) (owner recurrenceId : UUID) (request : OccurrenceRequest)
    (values : RecurrenceValues) (today : Int) : List Int :=
  (missingDates store owner recurrenceId request values).filter fun day => !(day < today)

theorem mem_missingDates {values : RecurrenceValues} {day : Int} :
    day ∈ missingDates store owner recurrenceId request values ↔
      day ∈ selectedDates values request ∧ ¬ HasRow store owner recurrenceId day := by
  unfold missingDates
  rw [List.mem_filter, decide_eq_true_eq, mem_existingDates]
  exact and_congr_right fun h => by simp [selectedDates_covered h]

/-- Each date of the window once, whichever source it comes from. -/
theorem sources_nodup (keys : TaskKeys store) (values : RecurrenceValues) :
    (existingDates store owner recurrenceId request ++
      missingDates store owner recurrenceId request values).Nodup := by
  refine List.nodup_append.mpr ⟨existingDates_nodup keys,
    (selectedDates_nodup values request).filter _, ?_⟩
  rintro day hday day' hday' rfl
  exact (mem_missingDates.mp hday').2 (mem_existingDates.mp hday).2

theorem mem_sources {values : RecurrenceValues} {day : Int} :
    day ∈ existingDates store owner recurrenceId request ++
        missingDates store owner recurrenceId request values ↔
      (request.Covers day ∧ HasRow store owner recurrenceId day) ∨
        day ∈ selectedDates values request := by
  rw [List.mem_append, mem_existingDates, mem_missingDates]
  constructor
  · rintro (h | h)
    · exact Or.inl h
    · exact Or.inr h.1
  · rintro (h | h)
    · exact Or.inl h
    · by_cases hrow : HasRow store owner recurrenceId day
      · exact Or.inl ⟨selectedDates_covered h, hrow⟩
      · exact Or.inr ⟨h, hrow⟩

/-- The pattern a command reads. -/
theorem get_ok {series : RecurrenceRecord}
    (h : RecurrenceRepository.get store owner recurrenceId = .ok series) :
    series.id = recurrenceId ∧ series.userId = owner := by
  unfold RecurrenceRepository.get at h
  split at h
  · next row hrow =>
      have hguard := List.find?_some hrow
      simp only [Bool.and_eq_true, decide_eq_true_eq] at hguard
      unfold RecurrenceRecord.modelValidate at h
      split at h
      · cases h
        exact hguard.1
      · contradiction
  · contradiction

/-- What an answered materialization read, created and reported. -/
structure Materialized (zone : Zone) (store : Store) (owner recurrenceId : UUID)
    (request : OccurrenceRequest) (series : RecurrenceRecord) (fresh : Nat → UUID × UUID)
    (now stamp : Int) (result : OccurrenceResult) (store' : Store) (live created : List TaskRecord)
    (rows : List TaskRow) : Prop where
  found : RecurrenceRepository.get store owner recurrenceId = .ok series
  versioned : RecurrenceRepository.checkVersion series request.expectedVersion false = .ok ()
  readable : ((windowRows store owner recurrenceId request).filter (·.deletedAt = none)).mapM
    (fun row => TaskRecord.modelValidate row.toTaskColumns) = .ok live
  prepared : RecurrenceRepository.occurrenceRows zone owner series
    (newDates store owner recurrenceId request series.toRecurrenceValues (zone.localDate now))
    fresh stamp = .ok rows
  inserted : RecurrenceRepository.TasksInserted store store' rows
  returned : rows.mapM (fun row => TaskRecord.modelValidate row.toTaskColumns) = .ok created
  tasks : result.tasks = sortBy (fun task => task.occurrenceDate.getD 0) (live ++ created)
  createdCount : result.createdCount = (newDates store owner recurrenceId request
    series.toRecurrenceValues (zone.localDate now)).length
  deleted : result.deletedDates = sortBy id
    (((windowRows store owner recurrenceId request).filter (·.deletedAt ≠ none)).filterMap
      (·.occurrenceDate))
  skipped : result.skippedPastDates = (missingDates store owner recurrenceId request
    series.toRecurrenceValues).filter (· < zone.localDate now)

theorem materialize_ok {zoneInfo : String → Zone} {fresh : Nat → UUID × UUID} {now stamp : Int}
    {result : OccurrenceResult}
    (h : RecurrenceRepository.materialize store zoneInfo owner recurrenceId request fresh now
      stamp = .ok (result, store')) :
    ∃ series live created rows, Materialized (zoneInfo series.timezone) store owner recurrenceId
      request series fresh now stamp result store' live created rows := by
  unfold RecurrenceRepository.materialize at h
  simp only [bind_ok, pure_eq_ok, Except.ok.injEq, Prod.mk.injEq] at h
  obtain ⟨series, hseries, _, hversion, live, hlive, ⟨created, inserted⟩, hinsert, rfl, rfl⟩ := h
  obtain ⟨rows, hrows, hinserted, hcreated⟩ := RecurrenceRepository.insertOccurrences_ok hinsert
  exact ⟨series, live, created, rows, hseries, hversion, hlive, hrows, hinserted, hcreated, rfl,
    rfl, rfl, rfl⟩

theorem taskDates_of_map {tasks : List TaskRecord} {rows : List TaskRow}
    (h : tasks.map (·.occurrenceDate) = rows.map (·.occurrenceDate)) :
    taskDates tasks = rows.filterMap (·.occurrenceDate) := by
  have hid := congrArg (List.filterMap id) h
  rwa [List.filterMap_map, List.filterMap_map] at hid

/-- The rows of one call, dated by the days they were made for. -/
theorem occurrenceRows_ok {zone : Zone} {series : RecurrenceRecord} {days : List Int}
    {fresh : Nat → UUID × UUID} {stamp : Int} {rows : List TaskRow}
    (h : RecurrenceRepository.occurrenceRows zone owner series days fresh stamp = .ok rows) :
    rows.map (·.occurrenceDate) = days.map some ∧
      ∀ row ∈ rows, row.userId = owner ∧ row.recurrenceId = some series.id := by
  unfold RecurrenceRepository.occurrenceRows at h
  have hdates : rows.map (fun row => row.occurrenceDate) =
      days.zipIdx.map fun entry => some entry.1 := by
    refine map_eq_of_mapM_ok (fun entry row hrow => ?_) h
    simp only [bind_ok, pure_eq_ok, Except.ok.injEq] at hrow
    obtain ⟨window, -, rfl⟩ := hrow
    rfl
  have hkeys : rows.map (fun row => (row.userId, row.recurrenceId)) =
      days.zipIdx.map fun _ => (owner, some series.id) := by
    refine map_eq_of_mapM_ok (fun entry row hrow => ?_) h
    simp only [bind_ok, pure_eq_ok, Except.ok.injEq] at hrow
    obtain ⟨window, -, rfl⟩ := hrow
    rfl
  refine ⟨?_, fun row hrow => ?_⟩
  · have hdays := congrArg (List.map some) (List.zipIdx_map_fst 0 days)
    rw [List.map_map] at hdays
    exact hdates.trans hdays
  · have hmem : (row.userId, row.recurrenceId) ∈
        rows.map (fun row => (row.userId, row.recurrenceId)) := List.mem_map_of_mem hrow
    rw [hkeys, List.mem_map] at hmem
    obtain ⟨-, -, heq⟩ := hmem
    rw [Prod.mk.injEq] at heq
    exact ⟨heq.1.symm, heq.2.symm⟩

theorem modelValidate_dates {rows : List TaskRow} {tasks : List TaskRecord}
    (h : rows.mapM (fun row => TaskRecord.modelValidate row.toTaskColumns) = .ok tasks) :
    tasks.map (·.occurrenceDate) = rows.map (·.occurrenceDate) :=
  map_eq_of_mapM_ok (fun _ _ hrow => by rw [TaskRecord.modelValidate_ok.mp hrow]) h

end

section
variable {zone : Zone} {store store' : Store} {owner recurrenceId : UUID}
  {request : OccurrenceRequest} {series : RecurrenceRecord} {fresh : Nat → UUID × UUID}
  {now stamp : Int} {result : OccurrenceResult} {live created : List TaskRecord}
  {rows : List TaskRow}

theorem Materialized.created_dates (done : Materialized zone store owner recurrenceId request
      series fresh now stamp result store' live created rows) :
    created.map (·.occurrenceDate) = (newDates store owner recurrenceId request
      series.toRecurrenceValues (zone.localDate now)).map some :=
  (modelValidate_dates done.returned).trans (occurrenceRows_ok done.prepared).1

/-- The three lists of an answer hold the dates of the three sources. -/
theorem Materialized.dates_perm (done : Materialized zone store owner recurrenceId request
      series fresh now stamp result store' live created rows) :
    result.dates.Perm (existingDates store owner recurrenceId request ++
      missingDates store owner recurrenceId request series.toRecurrenceValues) := by
  have hexisting := (List.filter_append_perm (fun row : TaskRow => decide (row.deletedAt = none))
    (windowRows store owner recurrenceId request)).filterMap (·.occurrenceDate)
  rw [List.filterMap_append] at hexisting
  have hmissing := List.filter_append_perm (fun day => decide (day < zone.localDate now))
    (missingDates store owner recurrenceId request series.toRecurrenceValues)
  have hlive := taskDates_of_map (modelValidate_dates done.readable)
  have hcreated : taskDates created = newDates store owner recurrenceId request
      series.toRecurrenceValues (zone.localDate now) := by
    have hid := congrArg (List.filterMap id) done.created_dates
    simpa [taskDates, List.filterMap_map, Function.comp_def] using hid
  have htasks : (taskDates result.tasks).Perm (taskDates live ++ taskDates created) := by
    rw [done.tasks]
    unfold taskDates
    rw [← List.filterMap_append]
    exact (sortBy_perm _ _).filterMap _
  rw [hlive, hcreated] at htasks
  have hdeleted := sortBy_perm id
    (((windowRows store owner recurrenceId request).filter (·.deletedAt ≠ none)).filterMap
      (·.occurrenceDate))
  rw [← done.deleted] at hdeleted
  rw [List.perm_iff_count]
  intro day
  have h₁ := htasks.count_eq day
  have h₂ := hdeleted.count_eq day
  have h₃ := hexisting.count_eq day
  have h₄ := hmissing.count_eq day
  unfold OccurrenceResult.dates existingDates
  rw [done.skipped]
  unfold newDates at h₁
  simp only [List.count_append, decide_not] at h₁ h₂ h₃ h₄ ⊢
  omega

theorem Materialized.dated (done : Materialized zone store owner recurrenceId request series
      fresh now stamp result store' live created rows) :
    ∀ task ∈ result.tasks, task.occurrenceDate ≠ none := by
  intro task htask
  rw [done.tasks, mem_sortBy, List.mem_append] at htask
  rcases htask with htask | htask
  · have hmem : task.occurrenceDate ∈ live.map (·.occurrenceDate) := List.mem_map_of_mem htask
    rw [modelValidate_dates done.readable] at hmem
    obtain ⟨row, hrow, hdate⟩ := List.mem_map.mp hmem
    obtain ⟨-, -, -, day, hday, -⟩ := mem_windowRows.mp (List.mem_filter.mp hrow).1
    rw [← hdate, hday]
    exact Option.some_ne_none day
  · have hmem : task.occurrenceDate ∈ created.map (·.occurrenceDate) := List.mem_map_of_mem htask
    rw [done.created_dates] at hmem
    obtain ⟨day, -, hday⟩ := List.mem_map.mp hmem
    rw [← hday]
    exact Option.some_ne_none day

theorem mem_newDates {values : RecurrenceValues} {today day : Int} :
    day ∈ newDates store owner recurrenceId request values today ↔
      day ∈ selectedDates values request ∧ today ≤ day ∧
        ¬ HasRow store owner recurrenceId day := by
  unfold newDates
  rw [List.mem_filter, mem_missingDates, Bool.not_eq_true', decide_eq_false_iff_not, not_lt]
  exact ⟨fun h => ⟨h.1.1, h.2, h.1.2⟩, fun h => ⟨⟨h.1, h.2.2⟩, h.2.1⟩⟩

theorem newDates_eq (values : RecurrenceValues) (today : Int) :
    newDates store owner recurrenceId request values today =
      (selectedDates values request).filter fun day =>
        today ≤ day ∧ ¬ HasRow store owner recurrenceId day := by
  unfold newDates missingDates
  rw [List.filter_filter]
  refine List.filter_congr fun day hday => ?_
  simp only [← decide_not, ← Bool.decide_and, not_lt, mem_existingDates,
    selectedDates_covered hday, true_and]

theorem Materialized.accounted (keys : TaskKeys store)
    (done : Materialized zone store owner recurrenceId request series fresh now stamp result
      store' live created rows) :
    Accounted store owner recurrenceId request series.toRecurrenceValues (zone.localDate now)
      result store' := by
  refine ⟨done.dates_perm.nodup_iff.mpr (sources_nodup keys _), done.dated,
    fun day => done.dates_perm.mem_iff.trans mem_sources, fun day => ?_, ?_,
    ⟨rows, done.inserted.rows, ?_⟩, done.inserted.others⟩
  · rw [done.skipped, List.mem_filter, mem_missingDates, decide_eq_true_eq]
    exact ⟨fun h => ⟨h.1.1, h.2, h.1.2⟩, fun h => ⟨⟨h.1, h.2.2⟩, h.2.1⟩⟩
  · rw [done.createdCount, newDates_eq]
  · have hlength := congrArg List.length (occurrenceRows_ok done.prepared).1
    rw [List.length_map, List.length_map] at hlength
    rw [hlength, done.createdCount]

/-- After an answer, no day of its window from its local date on is left without a
row. -/
theorem Materialized.complete (done : Materialized zone store owner recurrenceId request series
      fresh now stamp result store' live created rows) {later : Store}
    (tasks : later.tasks = store'.tasks) {today : Int} (notBefore : zone.localDate now ≤ today) :
    newDates later owner recurrenceId request series.toRecurrenceValues today = [] := by
  rw [List.eq_nil_iff_forall_not_mem]
  intro day hday
  obtain ⟨hselected, hle, hnone⟩ := mem_newDates.mp hday
  refine hnone ?_
  unfold HasRow
  rw [tasks, done.inserted.rows]
  by_cases hrow : HasRow store owner recurrenceId day
  · obtain ⟨row, hmem, hkeys⟩ := hrow
    exact ⟨row, List.mem_append_left _ hmem, hkeys⟩
  · have hnew := mem_newDates.mpr ⟨hselected, notBefore.trans hle, hrow⟩
    obtain ⟨hdates, howned⟩ := occurrenceRows_ok done.prepared
    have hmem : some day ∈ rows.map (·.occurrenceDate) := hdates ▸ List.mem_map_of_mem hnew
    obtain ⟨row, hmem, hdate⟩ := List.mem_map.mp hmem
    obtain ⟨howner, hseries⟩ := howned row hmem
    refine ⟨row, List.mem_append_right _ hmem, howner, ?_, hdate⟩
    rw [hseries, (get_ok done.found).1]

/-- The same request on the same tasks and pattern, no earlier by the local
calendar. -/
theorem Materialized.again {zoneInfo : String → Zone}
    (done : Materialized (zoneInfo series.timezone) store owner recurrenceId request series fresh
      now stamp result store' live created rows)
    (valid : ∀ row ∈ store'.tasks, row.deletedAt = none → row.toTaskColumns.Valid) {later : Store}
    (tasks : later.tasks = store'.tasks) (recurrences : later.recurrences = store'.recurrences)
    {now' : Int} (notBefore : (zoneInfo series.timezone).localDate now ≤
      (zoneInfo series.timezone).localDate now') (fresh' : Nat → UUID × UUID) (stamp' : Int) :
    ∃ result', RecurrenceRepository.materialize later zoneInfo owner recurrenceId request fresh'
      now' stamp' = .ok (result', later) ∧ result'.createdCount = 0 := by
  have hget : RecurrenceRepository.get later owner recurrenceId = .ok series := by
    rw [← done.found]
    unfold RecurrenceRepository.get
    rw [recurrences, done.inserted.others]
  obtain ⟨live', hlive⟩ : ∃ live', ((windowRows later owner recurrenceId request).filter
      (·.deletedAt = none)).mapM (fun row => TaskRecord.modelValidate row.toTaskColumns) =
        .ok live' := by
    refine mapM_total fun row hrow => ?_
    obtain ⟨hwindow, hnone⟩ := List.mem_filter.mp hrow
    have hmem := (mem_windowRows.mp hwindow).1
    rw [tasks] at hmem
    exact ⟨⟨row.toTaskColumns, valid row hmem (of_decide_eq_true hnone)⟩,
      TaskRecord.modelValidate_ok.mpr rfl⟩
  have hnew := done.complete tasks notBefore
  unfold windowRows at hlive
  unfold newDates missingDates selectedDates existingDates windowRows at hnew
  unfold RecurrenceRepository.materialize
  rw [hget, ok_bind, done.versioned, ok_bind]
  simp only [hlive, ok_bind, hnew]
  exact ⟨_, rfl, rfl⟩

end

/-- What holds of the occurrences of every pattern after the commands of a run. -/
structure OccurrencesOnce (zoneInfo : String → Zone) (commands : List Command) : Prop where
  unique : ∀ a ∈ (reached zoneInfo commands).tasks, ∀ b ∈ (reached zoneInfo commands).tasks,
    a.userId = b.userId → a.recurrenceId ≠ none → a.recurrenceId = b.recurrenceId →
    a.occurrenceDate = b.occurrenceDate → a = b
  stays : ∀ before after, commands = before ++ after → ∀ row ∈ (reached zoneInfo before).tasks,
    ∃ row' ∈ (reached zoneInfo commands).tasks, row.Follows row'
  accounted : ∀ owner recurrenceId request fresh now stamp result store',
    RecurrenceRepository.materialize (reached zoneInfo commands) zoneInfo owner recurrenceId
      request fresh now stamp = .ok (result, store') →
    ∃ series, RecurrenceRepository.get (reached zoneInfo commands) owner recurrenceId =
        .ok series ∧
      Accounted (reached zoneInfo commands) owner recurrenceId request series.toRecurrenceValues
        ((zoneInfo series.timezone).localDate now) result store'
  raised : ∀ owner recurrenceId request fresh now stamp error,
    RecurrenceRepository.materialize (reached zoneInfo commands) zoneInfo owner recurrenceId
      request fresh now stamp = .error error →
    step zoneInfo (reached zoneInfo commands)
      (.materialize owner recurrenceId request fresh now stamp) = reached zoneInfo commands
  again : ∀ owner recurrenceId request fresh now stamp result store',
    RecurrenceRepository.materialize (reached zoneInfo commands) zoneInfo owner recurrenceId
      request fresh now stamp = .ok (result, store') →
    ∀ later : Store, later.tasks = store'.tasks → later.recurrences = store'.recurrences →
    ∀ now', (∀ series, RecurrenceRepository.get (reached zoneInfo commands) owner recurrenceId =
      .ok series → (zoneInfo series.timezone).localDate now ≤
        (zoneInfo series.timezone).localDate now') →
    ∀ fresh' stamp', ∃ result', RecurrenceRepository.materialize later zoneInfo owner recurrenceId
      request fresh' now' stamp' = .ok (result', later) ∧ result'.createdCount = 0

/-- Over every run. -/
theorem reached_occurrencesOnce (zoneInfo : String → Zone) (commands : List Command) :
    OccurrencesOnce zoneInfo commands := by
  have keys := @taskKeys_reached zoneInfo commands
  refine ⟨keys.occurrences, ?_, ?_, ?_, ?_⟩
  · rintro before after rfl
    unfold reached
    rw [run_append]
    exact (run_tasksKept _ after).follows
  · intro owner recurrenceId request fresh now stamp result store' h
    obtain ⟨series, live, created, rows, done⟩ := materialize_ok h
    exact ⟨series, done.found, done.accounted keys⟩
  · intro owner recurrenceId request fresh now stamp error h
    refine @step_of_error zoneInfo _ _ error ?_
    change Prod.snd <$> _ = _
    rw [h]
    rfl
  · intro owner recurrenceId request fresh now stamp result store' h later tasks recurrences now'
      notBefore fresh' stamp'
    obtain ⟨series, live, created, rows, done⟩ := materialize_ok h
    have ok := (storeOk_reached zoneInfo commands).sourcesGrow
      (RecurrenceRepository.materialize_grow h)
    exact done.again ok.sources.tasks tasks recurrences (notBefore series done.found) fresh' stamp'

/-- 2010-11-07T02:31:00Z, when the clocks of St. John's went from 00:01 back to
23:01 of the day before. -/
def fallBack : Int := 1289097060000000

/-- `ZoneInfo("America/St_Johns")` around that night. -/
def stJohns : Zone where
  midnight day := (day - 719163) * 86400 + if day ≤ 734083 then 9000 else 12600
  localDate t := (t - if t < fallBack then 9000000000 else 12600000000) / 86400000000 + 719163
  localHour t := (t - if t < fallBack then 9000000000 else 12600000000) / 3600000000 % 24

def nightWatch : RecurrenceCreate where
  title := "watch"
  description := ""
  durationMinutes := 30
  priority := 5
  splittable := false
  preferredPeriod := .any
  frequency := .daily
  weekdays := []
  startDate := 734082
  endDate := none
  active := true
  valid := by decide
  clientRequestId := 4

def nightRun : List Command :=
  [.register 1 "student" "America/St_Johns" 0, .createRecurrence 1 nightWatch 3 0]

def nightRequest : OccurrenceRequest := ⟨1, 734082, 1, by decide⟩

/-- Half a minute after midnight the day before is over; at the change it is today
again, and the same request creates its task. -/
theorem rematerialize_fallBack :
    ∃ now now' first store' second store'', now ≤ now' ∧
      RecurrenceRepository.materialize (reached (fun _ => stJohns) nightRun) (fun _ => stJohns) 1 3
        nightRequest (fun _ => (5, 6)) now 0 = .ok (first, store') ∧
      RecurrenceRepository.materialize store' (fun _ => stJohns) 1 3 nightRequest
        (fun _ => (5, 6)) now' 0 = .ok (second, store'') ∧
      first.createdCount = 0 ∧ second.createdCount = 1 := by
  have created : okAnd (RecurrenceRepository.materialize (reached (fun _ => stJohns) nightRun)
      (fun _ => stJohns) 1 3 nightRequest (fun _ => (5, 6)) (fallBack - 30000000) 0) (fun answer =>
        decide (answer.1.createdCount = 0) && okAnd (RecurrenceRepository.materialize answer.2
          (fun _ => stJohns) 1 3 nightRequest (fun _ => (5, 6)) fallBack 0) fun again =>
            decide (again.1.createdCount = 1)) = true := by
    decide +kernel
  obtain ⟨⟨first, store'⟩, hfirst, htrue⟩ := exists_of_okAnd created
  rw [Bool.and_eq_true, decide_eq_true_eq] at htrue
  obtain ⟨hnone, hagain⟩ := htrue
  obtain ⟨⟨second, store''⟩, hsecond, hone⟩ := exists_of_okAnd hagain
  exact ⟨fallBack - 30000000, fallBack, first, store', second, store'', by decide, hfirst, hsecond,
    hnone, of_decide_eq_true hone⟩

end SmartPlanner
