import SmartPlanner.SchemaConstraints

/-!
How operations fail. The rows of a reachable store read back and their references
are there, so an operation that draws free identifiers, and sends titles and times
that the store can hold, fails with an application error or not at all: no
constraint, no validation and no clock gets in its way.
-/

namespace SmartPlanner

open Outcome Runs Sorting Tables

/-- The unique keys of two task rows differ. -/
structure TaskRow.KeysApart (a b : TaskRow) : Prop where
  id : a.id ≠ b.id
  request : a.userId = b.userId → a.clientRequestId ≠ b.clientRequestId
  occurrence : a.recurrenceId ≠ none → a.userId = b.userId → a.recurrenceId = b.recurrenceId →
    a.occurrenceDate ≠ b.occurrenceDate

/-- The identifiers drawn for new occurrences are distinct and not in use. -/
structure FreshRows (store : Store) (owner : UUID) (count : Nat) (fresh : Nat → UUID × UUID) :
    Prop where
  ids : ∀ i < count, ∀ row ∈ store.tasks.rows, row.id ≠ (fresh i).1
  requests : ∀ i < count, ∀ row ∈ store.tasks.rows, row.userId = owner →
    row.clientRequestId ≠ (fresh i).2
  distinct : ∀ i < count, ∀ j < count, i ≠ j →
    (fresh i).1 ≠ (fresh j).1 ∧ (fresh i).2 ≠ (fresh j).2

/-- What a command relies on besides the store: drawn identifiers that are free,
titles of tasks that their table accepts, times of events that can be encoded,
preferences that were not changed too often to be counted, and for a new schedule
a horizon in the supported years. -/
def Command.Ready (zoneInfo : String → Zone) (store : Store) : Command → Prop
  | .register id _ _ _ => ∀ row ∈ store.users.rows, row.id ≠ id
  | .createTask _ task id _ => TitleCheck task.title ∧ ∀ row ∈ store.tasks.rows, row.id ≠ id
  | .updateTask _ _ patch _ => TitlePasses patch
  | .updatePreferences _ update _ => update.expectedVersion < versionLimit
  | .createRecurrence _ _ id _ => ∀ row ∈ store.recurrences.rows, row.id ≠ id
  | .materialize owner recurrenceId request fresh _ _ =>
      (∀ row ∈ store.recurrences.rows, row.id = recurrenceId → TitleCheck row.values.title) ∧
      FreshRows store owner request.days fresh
  | .createEvent _ data id _ =>
      (InYears data.start ∧ InYears data.stop) ∧ ∀ row ∈ store.events.rows, row.id ≠ id
  | .replaceEvent _ _ data _ => InYears data.start ∧ InYears data.stop
  | .createSchedule owner data scheduleId _ _ =>
      (∀ row ∈ store.schedules.rows, row.id ≠ scheduleId) ∧
      ∀ user ∈ store.users.rows, user.id = owner →
        SupportedYear (data.content.toPlanningWindow.horizonStart (zoneInfo user.timezone)) ∧
        SupportedYear (data.content.toPlanningWindow.horizonStop (zoneInfo user.timezone))
  | _ => True

/-- A listing of events compares with ends that can be encoded. -/
def Query.Ready : Query → Prop
  | .events start stop _ _ => (∀ t ∈ start, InYears t) ∧ ∀ t ∈ stop, InYears t
  | .planningEvents start stop => InYears start ∧ InYears stop
  | _ => True

/-- The account of a command; registering makes one. -/
def Command.Registered (store : Store) : Command → Prop
  | .register .. => True
  | command => ∃ user ∈ store.users, user.id = command.owner

theorem refusal (error : AppError) : Refusal (.app error) := ⟨error, rfl⟩

theorem insertRow_total {κ α : Type} [DecidableEq κ] {key : α → κ} {table : Table key} {row : α}
    (free : ∀ other ∈ table, key other ≠ key row) :
    ∃ table', insertRow table row = .ok table' := by
  obtain ⟨table', h⟩ := Table.insert?_isSome table row free
  exact ⟨table', insertRow_ok.mpr h⟩

theorem raises_of_total {α : Type} {S : PyError → Prop} {x : Except PyError α}
    (h : ∃ a, x = .ok a) : Raises S x := by
  obtain ⟨a, rfl⟩ := h
  exact raises_ok a

section Tasks
variable {store : Store}

theorem insertTask_total {row : TaskRow} (title : TitleCheck row.title)
    (account : ∃ user ∈ store.users, user.id = row.userId)
    (free : ∀ other ∈ store.tasks, row.KeysApart other) :
    ∃ store', insertTask store row = .ok store' := by
  obtain ⟨user, huser, hid⟩ := account
  have found : store.users.find? row.userId = some user := Table.find?_eq_some.mpr ⟨huser, hid⟩
  obtain ⟨tasks, htasks⟩ : ∃ tasks, insertRow store.tasks row = .ok tasks :=
    insertRow_total fun other ho => (free other ho).id.symm
  refine ⟨{ store with tasks }, ?_⟩
  unfold insertTask
  rw [raiseIf_bind_ok, raiseIf_bind_ok, raiseIf_bind_ok, raiseIf_bind_ok, htasks]
  refine ⟨not_not.mpr title, ?_, ?_, ?_, rfl⟩
  · rw [found]
    exact Option.some_ne_none user
  · rintro ⟨other, ho, howner, hrequest⟩
    exact (free other ho).request howner.symm hrequest.symm
  · rintro ⟨hsome, other, ho, howner, hseries, hdate⟩
    exact (free other ho).occurrence hsome howner.symm hseries.symm hdate.symm

/-- Rows whose keys are free and differ among themselves. -/
theorem insertTasks_total {rows : List TaskRow} (titles : ∀ row ∈ rows, TitleCheck row.title)
    (account : ∀ row ∈ rows, ∃ user ∈ store.users, user.id = row.userId)
    (free : ∀ row ∈ rows, ∀ other ∈ store.tasks, row.KeysApart other)
    (apart : rows.Pairwise fun a b => b.KeysApart a) :
    ∃ store', rows.foldlM insertTask store = .ok store' := by
  induction rows generalizing store with
  | nil => exact ⟨store, rfl⟩
  | cons row rows ih =>
      rw [List.forall_mem_cons] at titles account free
      rw [List.pairwise_cons] at apart
      obtain ⟨store', h⟩ := insertTask_total titles.1 account.1 free.1
      have inserted := insertTask_ok h
      rw [List.foldlM_cons, h]
      refine ih titles.2 (fun later hlater => ?_) (fun later hlater other ho => ?_) apart.2
      · rw [inserted.others]
        exact account.2 later hlater
      · rcases (inserted.mem other).mp ho with old | rfl
        · exact free.2 later hlater other old
        · exact apart.1 later hlater

namespace Repository

theorem createTask_refuses (sources : SourcesValid store) {owner : UUID}
    (account : ∃ user ∈ store.users, user.id = owner) {task : TaskCreate}
    (title : TitleCheck task.title) {id : UUID} (free : ∀ row ∈ store.tasks, row.id ≠ id)
    (stamp : Int) : Raises Refusal (createTask store owner task id stamp) := by
  unfold createTask
  refine (raises_of_total ⟨⟨⟩, raiseIf_ok.mpr (not_not.mpr title)⟩).bind fun _ _ => ?_
  split
  · next existing hfind =>
      refine (raises_raiseIf (refusal _)).bind fun _ _ => ?_
      refine (raises_raiseIf (refusal _)).bind fun _ hlive => ?_
      rw [raiseIf_ok, not_not] at hlive
      exact (raises_modelValidate (sources.tasks existing (List.mem_of_find?_eq_some hfind)
        hlive)).bind fun _ _ => raises_ok _
  · next hnone =>
      refine Raises.bind (raises_of_total (insertTask_total title account fun other ho => ?_))
        fun _ _ => ?_
      · refine ⟨(free other ho).symm, fun howner hrequest => ?_, fun h => absurd rfl h⟩
        have asked := List.find?_eq_none.mp hnone other ho
        simp only [Bool.and_eq_true, decide_eq_true_eq] at asked
        exact asked ⟨howner.symm, hrequest.symm⟩
      · exact (raises_modelValidate (fresh_valid task.valid id owner task.clientRequestId
          stamp)).bind fun _ _ => raises_ok _

theorem updateTask_refuses (sources : SourcesValid store) (checked : TitlesChecked store)
    (owner taskId : UUID) {patch : TaskPatch} (title : TitlePasses patch) (stamp : Int) :
    Raises Refusal (updateTask store owner taskId patch stamp) := by
  intro error h
  rcases updateTask_error sources h with (rfl | rfl | rfl) | ⟨-, row, addressed, -, fails⟩
  · exact refusal _
  · exact refusal _
  · exact refusal _
  · exact absurd ((titlePasses_iff (checked row addressed.mem)).mp title) fails

end Repository

namespace RecurrenceRepository

section
variable {zone : Zone} {owner : UUID} {series : RecurrenceRecord} {days : List Int}
  {fresh : Nat → UUID × UUID} {stamp : Int} {rows : List TaskRow}

/-- The keys of the rows that a materialization prepares. -/
theorem occurrenceRows_keys
    (h : occurrenceRows zone owner series days fresh stamp = .ok rows) :
    rows.map (fun row => (row.id, row.clientRequestId, row.occurrenceDate)) =
      days.zipIdx.map fun entry => ((fresh entry.2).1, (fresh entry.2).2, some entry.1) := by
  refine map_eq_of_mapM_ok (fun entry row hrow => ?_) h
  simp only [bind_ok, pure_eq_ok, Except.ok.injEq] at hrow
  obtain ⟨window, -, rfl⟩ := hrow
  rfl

theorem occurrenceRows_titles
    (h : occurrenceRows zone owner series days fresh stamp = .ok rows) :
    ∀ row ∈ rows, row.title = series.title := by
  intro row hrow
  obtain ⟨entry, -, hentry⟩ := source_of_mapM_ok h row hrow
  simp only [bind_ok, pure_eq_ok, Except.ok.injEq] at hentry
  obtain ⟨window, -, rfl⟩ := hentry
  rfl

theorem occurrenceRows_apart
    (h : occurrenceRows zone owner series days fresh stamp = .ok rows) (nodup : days.Nodup)
    (distinct : ∀ i < days.length, ∀ j < days.length, i ≠ j →
      (fresh i).1 ≠ (fresh j).1 ∧ (fresh i).2 ≠ (fresh j).2) :
    rows.Pairwise fun a b => b.KeysApart a := by
  have positions : days.zipIdx.Pairwise fun a b => a.2 ≠ b.2 := by
    rw [← List.pairwise_map, List.zipIdx_map_snd]
    exact List.nodup_range'
  have dates : days.zipIdx.Pairwise fun a b => a.1 ≠ b.1 := by
    rw [← List.pairwise_map, List.zipIdx_map_fst]
    exact nodup
  have apart : (rows.map fun row => (row.id, row.clientRequestId, row.occurrenceDate)).Pairwise
      fun a b => b.1 ≠ a.1 ∧ b.2.1 ≠ a.2.1 ∧ b.2.2 ≠ a.2.2 := by
    rw [occurrenceRows_keys h, List.pairwise_map]
    refine (positions.and dates).imp_of_mem fun {a b} ha hb hne => ?_
    have drawn := distinct b.2 (List.snd_lt_of_mem_zipIdx hb) a.2 (List.snd_lt_of_mem_zipIdx ha)
      hne.1.symm
    exact ⟨drawn.1, drawn.2, fun same => hne.2 (Option.some.inj same).symm⟩
  rw [List.pairwise_map] at apart
  exact apart.imp fun hne => ⟨hne.1, fun _ => hne.2.1, fun _ _ _ => hne.2.2⟩

theorem occurrenceRows_free {recurrenceId : UUID}
    (h : occurrenceRows zone owner series days fresh stamp = .ok rows)
    (same : series.id = recurrenceId) (unused : FreshRows store owner days.length fresh)
    (unwritten : ∀ day ∈ days, ¬ HasRow store owner recurrenceId day) :
    ∀ row ∈ rows, ∀ other ∈ store.tasks, row.KeysApart other := by
  intro row hrow other ho
  have hmem : (row.id, row.clientRequestId, row.occurrenceDate) ∈
      rows.map (fun row => (row.id, row.clientRequestId, row.occurrenceDate)) :=
    List.mem_map_of_mem hrow
  rw [occurrenceRows_keys h, List.mem_map] at hmem
  obtain ⟨entry, hentry, heq⟩ := hmem
  rw [Prod.mk.injEq, Prod.mk.injEq] at heq
  obtain ⟨hid, hrequest, hdate⟩ := heq
  obtain ⟨howner, hseries⟩ := (occurrenceRows_ok h).2 row hrow
  have hlt := List.snd_lt_of_mem_zipIdx hentry
  refine ⟨fun hsame => ?_, fun huser hsame => ?_, fun _ huser hpattern hday => ?_⟩
  · exact unused.ids entry.2 hlt other ho (hsame.symm.trans hid.symm)
  · exact unused.requests entry.2 hlt other ho (huser.symm.trans howner)
      (hsame.symm.trans hrequest.symm)
  · refine unwritten entry.1 (List.fst_mem_of_mem_zipIdx hentry) ⟨other, ho, ?_, ?_, ?_⟩
    · exact huser.symm.trans howner
    · rw [← hpattern, hseries, same]
    · rw [← hday, hdate]

end

theorem get_refuses (patterns : PatternsValid store) (owner recurrenceId : UUID) :
    Raises Refusal (get store owner recurrenceId) := by
  unfold get
  split
  · next row hrow =>
      have hguard := List.find?_some hrow
      simp only [Bool.and_eq_true, decide_eq_true_eq] at hguard
      unfold RecurrenceRecord.modelValidate
      rw [dif_pos (patterns row (List.mem_of_find?_eq_some hrow) hguard.2)]
      exact raises_ok _
  · exact raises_error (refusal _)

theorem get_account (references : References store) {owner recurrenceId : UUID}
    {series : RecurrenceRecord} (h : get store owner recurrenceId = .ok series) :
    ∃ user ∈ store.users, user.id = owner := by
  obtain ⟨row, hrow, -, howner, -⟩ := get_found h
  exact references.recurrences row hrow owner (congrArg some howner)

/-- The windows are computed before anything is written, and what is written has
free keys. -/
theorem insertOccurrences_refuses {owner recurrenceId : UUID} {series : RecurrenceRecord}
    {days : List Int} {fresh : Nat → UUID × UUID} (zone : Zone) (stamp : Int)
    (account : ∃ user ∈ store.users, user.id = owner) (title : TitleCheck series.title)
    (same : series.id = recurrenceId)
    (nodup : days.Nodup) (unused : FreshRows store owner days.length fresh)
    (unwritten : ∀ day ∈ days, ¬ HasRow store owner recurrenceId day) :
    Raises Refusal (insertOccurrences store zone owner series days fresh stamp) := by
  unfold insertOccurrences
  refine Raises.bind ?_ fun rows hrows => ?_
  · unfold occurrenceRows
    refine raises_mapM fun entry _ => ?_
    exact (raises_occurrenceWindow entry.1 zone series.durationMinutes).bind fun _ _ => raises_ok _
  · have inserted : ∃ store', rows.foldlM insertTask store = .ok store' := by
      refine insertTasks_total (fun row hrow => occurrenceRows_titles hrows row hrow ▸ title)
        (fun row hrow => ?_) (occurrenceRows_free hrows same unused unwritten)
        (occurrenceRows_apart hrows nodup unused.distinct)
      rw [((occurrenceRows_ok hrows).2 row hrow).1]
      exact account
    refine (raises_of_total inserted).bind fun _ _ => ?_
    refine (raises_mapM fun row hrow => ?_).bind fun _ _ => raises_ok _
    obtain ⟨entry, -, hentry⟩ := source_of_mapM_ok hrows row hrow
    simp only [bind_ok, pure_eq_ok, Except.ok.injEq] at hentry
    obtain ⟨window, hwindow, rfl⟩ := hentry
    exact raises_modelValidate (occurrenceRow_valid (occurrenceWindow_fits hwindow) stamp)

theorem newDates_nodup {owner recurrenceId : UUID} {request : OccurrenceRequest}
    (values : RecurrenceValues) (today : Int) :
    (newDates store owner recurrenceId request values today).Nodup :=
  ((selectedDates_nodup values request).filter _).filter _

theorem newDates_length {owner recurrenceId : UUID} {request : OccurrenceRequest}
    (values : RecurrenceValues) (today : Int) :
    (newDates store owner recurrenceId request values today).length ≤ request.days :=
  (List.length_filter_le _ _).trans ((List.length_filter_le _ _).trans
    (occurrenceDates_length values request.startDate request.days))

theorem materialize_refuses (sources : SourcesValid store) (patterns : PatternsValid store)
    (references : References store) (zoneInfo : String → Zone) (owner recurrenceId : UUID)
    (request : OccurrenceRequest) {fresh : Nat → UUID × UUID}
    (titles : ∀ row ∈ store.recurrences, row.id = recurrenceId → TitleCheck row.values.title)
    (unused : FreshRows store owner request.days fresh) (now stamp : Int) :
    Raises Refusal (materialize store zoneInfo owner recurrenceId request fresh now stamp) := by
  unfold materialize
  refine (get_refuses patterns owner recurrenceId).bind fun series hseries => ?_
  refine (raises_raiseIf (refusal _)).bind fun _ _ => ?_
  refine (raises_mapM fun row hrow => ?_).bind fun _ _ => ?_
  · rw [List.mem_filter, mem_sortBy, Table.mem_select] at hrow
    exact raises_modelValidate (sources.tasks row hrow.1.1 (of_decide_eq_true hrow.2))
  · obtain ⟨days, hdays⟩ : ∃ days, days = newDates store owner recurrenceId request
      series.toRecurrenceValues ((zoneInfo series.timezone).localDate now) := ⟨_, rfl⟩
    have few : days.length ≤ request.days := hdays ▸ newDates_length _ _
    have drawn : FreshRows store owner days.length fresh :=
      ⟨fun i hi => unused.ids i (Nat.lt_of_lt_of_le hi few),
        fun i hi => unused.requests i (Nat.lt_of_lt_of_le hi few),
        fun i hi j hj => unused.distinct i (Nat.lt_of_lt_of_le hi few) j
          (Nat.lt_of_lt_of_le hj few)⟩
    have unwritten : ∀ day ∈ days, ¬ HasRow store owner recurrenceId day :=
      fun day hday => (mem_newDates.mp (hdays ▸ hday)).2.2
    have title : TitleCheck series.title := by
      obtain ⟨row, hrow, hid, -, -, values⟩ := get_found hseries
      exact congrArg RecurrenceValues.title values ▸ titles row hrow hid
    have created := insertOccurrences_refuses (zoneInfo series.timezone) stamp
      (get_account references hseries) title (get_ok hseries).1 (hdays ▸ newDates_nodup _ _) drawn
      unwritten
    rw [hdays] at created
    exact created.bind fun _ _ => raises_ok _

theorem list_total (patterns : PatternsValid store) (owner : UUID) (limit offset : Nat) :
    ∃ records, list store owner limit offset = .ok records := by
  unfold list
  refine mapM_total fun row hrow => ?_
  have hmem := List.mem_of_mem_drop (List.mem_of_mem_take hrow)
  rw [List.mem_reverse, mem_sortBy, Table.mem_select] at hmem
  simp only [Bool.and_eq_true, decide_eq_true_eq] at hmem
  unfold RecurrenceRecord.modelValidate
  rw [dif_pos (patterns row hmem.1 hmem.2.2)]
  exact ⟨_, rfl⟩

theorem modelValidate_refuses {row : RecurrenceRow} (valid : VersionValid row.version) :
    Raises Refusal (RecurrenceRecord.modelValidate row) := by
  unfold RecurrenceRecord.modelValidate
  rw [dif_pos valid]
  exact raises_ok _

theorem create_refuses (patterns : PatternsValid store) (owner : UUID) (data : RecurrenceCreate)
    {id : UUID} (free : ∀ row ∈ store.recurrences, row.id ≠ id) (stamp : Int) :
    Raises Refusal (create store owner data id stamp) := by
  unfold create
  split
  · refine Raises.bind (raises_of_total (insertRow_total free)) fun _ _ => ?_
    exact (modelValidate_refuses versionValid_one).bind fun _ _ => raises_ok _
  · exact raises_error (refusal _)
  · next row hfind =>
      refine (raises_raiseIf (refusal _)).bind fun _ _ => ?_
      refine (raises_raiseIf (refusal _)).bind fun _ hlive => ?_
      rw [raiseIf_ok, not_not] at hlive
      exact (modelValidate_refuses (patterns row (List.mem_of_find?_eq_some hfind)
        hlive)).bind fun _ _ => raises_ok _

/-- The row that is rewritten is the one that was read, and its version can rise. -/
theorem replace_refuses (patterns : PatternsValid store) (owner recurrenceId : UUID)
    (data : RecurrenceReplace) (stamp : Int) :
    Raises Refusal (replace store owner recurrenceId data stamp) := by
  unfold replace
  refine (get_refuses patterns owner recurrenceId).bind fun current hcurrent => ?_
  refine (raises_raiseIf (refusal _)).bind fun _ hversion => ?_
  obtain ⟨found, hfound, hid, howner, hsame, -⟩ := get_found hcurrent
  have named : owned owner recurrenceId found = true := owned_iff.mpr ⟨hid, howner⟩
  simp only
  split
  · next hnone => exact absurd named (List.find?_eq_none.mp hnone found hfound)
  · next row hrow =>
      have same : row = found := store.recurrences.eq_of_key (List.mem_of_find?_eq_some hrow)
        hfound ((owned_iff.mp (List.find?_some hrow)).1.trans hid.symm)
      have valid : VersionValid (row.version + 1) := by
        have hold := current.versionValid
        rw [raiseIf_ok, not_or, not_and] at hversion
        have hne := hversion.2 rfl
        rw [same, hsame]
        unfold VersionValid at hold ⊢
        omega
      exact (modelValidate_refuses valid).bind fun _ _ => raises_ok _

theorem delete_refuses (patterns : PatternsValid store) (owner recurrenceId : UUID)
    (expectedVersion : Nat) (stamp : Int) :
    Raises Refusal (delete store owner recurrenceId expectedVersion stamp) := by
  unfold delete
  refine (get_refuses patterns owner recurrenceId).bind fun current _ => ?_
  exact (raises_raiseIf (refusal _)).bind fun _ _ => raises_ok _

end RecurrenceRepository

namespace Repository

theorem register_refuses (references : References store) {id : UUID}
    (free : ∀ row ∈ store.users, row.id ≠ id) (email timezone : String) (stamp : Int) :
    Raises Refusal (register store id email timezone stamp) := by
  unfold register
  refine (raises_raiseIf (refusal _)).bind fun _ _ => ?_
  refine Raises.bind (raises_of_total (insertRow_total free)) fun _ _ => ?_
  refine Raises.bind (raises_of_total (insertRow_total fun row hrow hsame => ?_)) fun _ _ =>
    raises_ok _
  -- The preferences of another account would name it.
  obtain ⟨user, huser, hid⟩ := references.preferences row hrow id (congrArg some hsame)
  exact free user huser hid

theorem getPreferences_refuses (sources : SourcesValid store) (owner : UUID) :
    Raises Refusal (getPreferences store owner) := by
  unfold getPreferences
  split
  · next row hfind =>
      unfold PreferenceRecord.modelValidate
      rw [dif_pos (sources.preferences row (Table.find?_eq_some.mp hfind).1)]
      exact raises_ok _
  · exact raises_error (refusal _)

theorem updatePreferences_refuses (sources : SourcesValid store) (owner : UUID)
    {update : PreferencePut} (rises : update.expectedVersion < versionLimit) (stamp : Int) :
    Raises Refusal (updatePreferences store owner update stamp) := by
  unfold updatePreferences
  simp only
  split
  · exact raises_error (refusal _)
  · next row hfind =>
      have hguard := List.find?_some hfind
      simp only [Bool.and_eq_true, decide_eq_true_eq] at hguard
      have valid : VersionValid (row.version + 1) := by
        have hold := sources.preferences row (List.mem_of_find?_eq_some hfind)
        unfold VersionValid at hold ⊢
        omega
      unfold PreferenceRecord.modelValidate
      rw [dif_pos valid]
      exact raises_ok _

end Repository

namespace FixedEventRepository

theorem get_refuses (owner eventId : UUID) : Raises Refusal (get store owner eventId) := by
  unfold get
  split
  · exact raises_ok _
  · exact raises_error (refusal _)

theorem encoded_total {data : FixedEventCreate} (years : InYears data.start ∧ InYears data.stop) :
    ∃ texts, [data.start, data.stop].mapM encodeUtc = .ok texts :=
  ⟨_, mapM_encodeUtc (by simp [years])⟩

theorem create_refuses {owner : UUID} (account : ∃ user ∈ store.users, user.id = owner)
    {data : FixedEventCreate} (years : InYears data.start ∧ InYears data.stop) {id : UUID}
    (free : ∀ row ∈ store.events, row.id ≠ id)
    (stamp : Int) : Raises Refusal (create store owner data id stamp) := by
  obtain ⟨user, huser, hid⟩ := account
  have found : store.users.find? owner = some user := Table.find?_eq_some.mpr ⟨huser, hid⟩
  unfold create
  refine (raises_of_total (encoded_total years)).bind fun _ _ => ?_
  refine Raises.bind (raises_of_total ⟨⟨⟩, raiseIf_ok.mpr ?_⟩) fun _ _ => ?_
  · rw [found]
    exact Option.some_ne_none user
  · exact (raises_of_total (insertRow_total free)).bind fun _ _ => raises_ok _

theorem replace_refuses (owner eventId : UUID) {data : FixedEventReplace}
    (years : InYears data.start ∧ InYears data.stop) (stamp : Int) :
    Raises Refusal (replace store owner eventId data stamp) := by
  unfold replace
  refine (raises_of_total (encoded_total years)).bind fun _ _ => ?_
  simp only
  split
  · exact raises_ok _
  · exact (get_refuses owner eventId).bind fun _ _ => raises_error (refusal _)

theorem delete_refuses (owner eventId : UUID) (expectedVersion : Nat) :
    Raises Refusal (delete store owner eventId expectedVersion) := by
  unfold delete
  simp only
  split
  · exact raises_ok _
  · exact (get_refuses owner eventId).bind fun _ _ => raises_error (refusal _)

end FixedEventRepository

end Tasks

/-- The horizon of a planner in the supported years is one of a saved window. -/
theorem Planner.Grid.windowValid {p : Planner} (grid : p.Grid) (start : SupportedYear p.start)
    (stop : SupportedYear p.stop) : WindowValid p.start p.stop := by
  have whole := grid.wholeStart
  have hsize := grid.size_pos
  have hend := grid.stop_eq
  unfold WindowValid minute at *
  refine ⟨⟨start, whole⟩, ⟨stop, ?_⟩, ?_⟩ <;> omega

/-- In supported years the checker only fails by refusing. -/
theorem inspectLayout_refuses {zoneInfo : String → Zone} {window : PlanningWindow}
    {blocks : List PlanBlock} {tasks : List TaskRecord} (preferences : PreferenceValues)
    {timezoneName : String} (snapshot : SnapshotMatches window.taskIds tasks)
    (own : blocks.length ≤ 512 ∧ ∀ block ∈ blocks, block.taskId ∈ window.taskIds)
    (start : SupportedYear (window.horizonStart (zoneInfo timezoneName)))
    (stop : SupportedYear (window.horizonStop (zoneInfo timezoneName))) :
    Raises Refusal (inspectLayout zoneInfo window blocks tasks preferences timezoneName) := by
  have requestValid : (blocks.map PlanBlock.lock).length ≤ 512 ∧
      ∀ block ∈ blocks.map PlanBlock.lock, block.taskId ∈ window.taskIds := by
    rw [List.length_map, List.forall_mem_map]
    exact own
  unfold inspectLayout
  refine (raises_raiseIf (refusal _)).bind fun _ _ => ?_
  rw [PreviewRequest.make_valid requestValid, ok_bind]
  simp only
  refine (Planner.raises_init CheckError.refusal _ _ _ (absurd snapshot)).bind fun p hinit => ?_
  obtain ⟨-, -, -, -, -, hstart, hstop⟩ := Planner.init_fields hinit
  have horizon := (Planner.init_grid hinit).windowValid (hstart ▸ start) (hstop ▸ stop)
  obtain ⟨missing, hmissing, -⟩ := foldlM_missingEntry blocks p.ordered []
  refine ((raises_relabelLockErrors (p.raises_preservePrevious _)).mono
    CheckError.refusal).bind fun state _ => ?_
  rw [hmissing, ok_bind, TimeWindow.make_ok.mpr
    (show (⟨p.start, p.stop, horizon⟩ : TimeWindow).start = p.start ∧ _ from ⟨rfl, rfl⟩)]
  exact raises_ok _

theorem Current.snapshot {store : Store} {owner : UUID} {candidate : Candidate}
    {tasks : List TaskRecord} {values : PreferenceValues}
    (current : Current store owner candidate tasks values) :
    SnapshotMatches candidate.content.taskIds tasks := by
  have ids := current.records.ids_eq
  refine ⟨ids ▸ candidate.content.planningValid.2.2.1, fun task ht => ?_, fun id hid => ids ▸ hid⟩
  rw [← ids]
  exact List.mem_map_of_mem ht

namespace ScheduleRepository
variable {zoneInfo : String → Zone} {store : Store} {owner scheduleId requestId : UUID}

theorem ownerLock_refuses (owner : UUID) : Raises Refusal (ownerLock store owner) := by
  unfold ownerLock
  split
  · exact raises_ok _
  · exact raises_error (refusal _)

theorem header_refuses (owner scheduleId : UUID) :
    Raises Refusal (header store owner scheduleId) := by
  unfold header
  split
  · exact raises_error (refusal _)
  · split
    · exact raises_error (refusal _)
    · exact raises_ok _

theorem view_refuses (owner scheduleId : UUID) : Raises Refusal (view store owner scheduleId) :=
  (header_refuses owner scheduleId).bind fun _ _ => raises_ok _

theorem history_refuses (owner scheduleId : UUID) :
    Raises Refusal (history store owner scheduleId) :=
  (header_refuses owner scheduleId).bind fun _ _ => raises_ok _

theorem replay_refuses (owner requestId : UUID) (digest : CommandDigest) :
    Raises Refusal (replay store owner requestId digest) := by
  unfold replay
  split
  · exact raises_ok _
  · refine (raises_raiseIf (refusal _)).bind fun _ _ => ?_
    exact (view_refuses owner _).bind fun _ _ => raises_ok _

theorem nextVersion_refuses (found : ScheduleHeader) (expected : Nat) :
    Raises Refusal (nextVersion found expected) := by
  refine (raises_raiseIf (refusal _)).bind fun _ _ => ?_
  exact (raises_raiseIf (refusal _)).bind fun _ _ => raises_ok _

/-- The version checks leave only rows that are there and read back. -/
theorem sources_refuses (sourcesValid : SourcesValid store) (owner : UUID) (candidate : Candidate)
    (previous : Option Candidate) :
    Raises Refusal (sources store owner candidate previous) := by
  unfold sources
  simp only
  split
  · exact raises_error (refusal _)
  · next preferences hfind =>
      refine (raises_raiseIf (refusal _)).bind fun _ _ => ?_
      refine (raises_raiseIf (refusal _)).bind fun _ hfresh => ?_
      rw [raiseIf_ok, not_exists_mem_not] at hfresh
      refine (raises_mapM fun taskId hid => ?_).bind fun _ _ => ?_
      · obtain ⟨entry, hentry, hname⟩ := List.mem_map.mp ((candidate.selected_iff taskId).mpr hid)
        obtain ⟨row, hrow, hlive, -⟩ := hfresh entry hentry
        rw [Option.mem_def, hname] at hrow
        unfold selectedTask
        rw [hrow]
        exact raises_modelValidate (sourcesValid.tasks row (liveRow_liveRows.mp hrow).1 hlive)
      · unfold PreferenceRecord.modelValidate
        rw [dif_pos (sourcesValid.preferences preferences (Table.find?_eq_some.mp hfind).1)]
        exact raises_ok _

/-- A candidate whose horizon lies in the supported years, as that of a saved
schedule does. -/
theorem validate_refuses (sourcesValid : SourcesValid store) (owner : UUID) {candidate : Candidate}
    {zone : String} {previous : Option Candidate} (now : Int)
    (supported : (∀ old ∈ previous, candidate.content.startDate = old.content.startDate ∧
        candidate.content.days = old.content.days) →
      SupportedYear (candidate.content.toPlanningWindow.horizonStart (zoneInfo zone)) ∧
      SupportedYear (candidate.content.toPlanningWindow.horizonStop (zoneInfo zone))) :
    Raises Refusal (validate zoneInfo store owner candidate zone previous now) := by
  unfold validate
  refine (sources_refuses sourcesValid owner candidate previous).bind fun read hread => ?_
  obtain ⟨tasks, record, live⟩ := read
  obtain ⟨current, -⟩ := sources_ok.mp ⟨record, hread, rfl⟩
  refine (raises_raiseIf (refusal _)).bind fun _ _ => ?_
  refine (raises_raiseIf (refusal _)).bind fun _ hdates => ?_
  obtain ⟨hstart, hstop⟩ := supported fun old ho => by
    by_contra hne
    refine raiseIf_ok.mp hdates ⟨old, ho, fun heq => hne ?_⟩
    simpa using heq
  refine ((raises_protectPlacements _ _ _ _).mono CheckError.refusal).bind fun _ _ => ?_
  refine (inspectLayout_refuses _ current.snapshot candidate.content.blocksValid hstart
    hstop).bind fun report _ => ?_
  exact (raises_raiseIf (refusal _)).bind fun _ _ => raises_ok _

theorem allocations_refuses (owner scheduleId : UUID) (state : Candidate) :
    Raises Refusal (allocations store owner scheduleId state) := by
  intro error h
  rcases bind_error.mp h with hguard | ⟨u, hguard, -⟩
  · obtain ⟨-, rfl⟩ := raiseIf_error.mp hguard
    exact refusal _
  · rw [raiseIf_ok] at hguard
    have free : ∀ row ∈ store.allocations, row.userId = owner →
        (∃ block ∈ state.content.blocks, block.taskId = row.taskId) →
        row.scheduleId = scheduleId := fun row hrow howner hblock =>
      by_contra fun hne => hguard ⟨row, hrow, howner, mem_allocatedIds.mpr hblock, hne⟩
    obtain ⟨store', done⟩ := allocations_total free
    rw [done] at h
    contradiction

theorem finish_refuses (unanswered : store.commands.find? (owner, requestId) = none)
    (scheduleId : UUID) (digest : CommandDigest) (version : Nat) :
    Raises Refusal (finish store owner scheduleId requestId digest version) := by
  unfold finish
  refine Raises.bind (raises_of_total (insertRow_total (Table.find?_eq_none.mp unanswered)))
    fun _ _ => ?_
  exact (view_refuses owner scheduleId).bind fun _ _ => raises_ok _

theorem create_refuses (ok : StoreOk zoneInfo store) {data : ScheduleCreate} (now stamp : Int)
    (ready : (Command.createSchedule owner data scheduleId now stamp).Ready zoneInfo store) :
    Raises Refusal (create zoneInfo store owner data scheduleId now stamp) := by
  obtain ⟨free, supported⟩ := ready
  unfold create
  refine (ownerLock_refuses owner).bind fun zone hzone => ?_
  refine (replay_refuses owner _ _).bind fun replayed hreplay => ?_
  obtain ⟨user, huser, hid, rfl⟩ := ownerLock_ok.mp hzone
  cases replayed with
  | some result => exact raises_ok _
  | none =>
      have unanswered := replay_none.mp hreplay
      refine (validate_refuses ok.sources owner now fun _ => supported user huser hid).bind
        fun _ _ => ?_
      refine (raises_raiseIf (refusal _)).bind fun _ _ => ?_
      refine Raises.bind (raises_of_total (insertRow_total free)) fun _ _ => ?_
      refine Raises.bind (raises_of_total (insertState_total fun row hrow hsame => ?_))
        fun inserted hinsert => ?_
      · -- A version under the new id would name a schedule that is there.
        obtain ⟨schedule, hs, hname⟩ := ok.versionsOwned row hrow
        exact free schedule hs (hname.trans hsame.1)
      · refine (allocations_refuses owner scheduleId _).bind fun allocated halloc => ?_
        refine finish_refuses ?_ scheduleId _ 1
        rw [(allocations_ok halloc).2.2, (insertState_ok hinsert).2.2]
        exact unanswered

/-- The dates of a saved schedule are fixed, and its horizon was representable. -/
theorem supported_of_saved (ok : StoreOk zoneInfo store) {schedule : ScheduleRow}
    (hs : schedule ∈ store.schedules) {current : VersionRow}
    (hcurrent : current ∈ historyRows store schedule.id) {candidate : Candidate}
    (same : candidate.content.startDate = current.state.content.startDate ∧
      candidate.content.days = current.state.content.days) :
    SupportedYear (candidate.content.toPlanningWindow.horizonStart (zoneInfo schedule.timezone)) ∧
    SupportedYear (candidate.content.toPlanningWindow.horizonStop (zoneInfo schedule.timezone)) := by
  have entry := (ok.schedules schedule hs).entries current hcurrent
  have horizon := schedule.horizon.windowValid
  rw [entry.horizonStart, entry.horizonStop] at horizon
  unfold PlanningWindow.horizonStart PlanningWindow.horizonStop at horizon ⊢
  rw [same.1, same.2]
  exact ⟨horizon.1.1, horizon.2.1.1⟩

theorem replace_refuses (ok : StoreOk zoneInfo store) (owner scheduleId : UUID)
    (data : ScheduleReplace) (now stamp : Int) :
    Raises Refusal (replace zoneInfo store owner scheduleId data now stamp) := by
  unfold replace
  refine (ownerLock_refuses owner).bind fun zone hzone => ?_
  refine (header_refuses owner scheduleId).bind fun found hheader => ?_
  refine (replay_refuses owner _ _).bind fun replayed hreplay => ?_
  cases replayed with
  | some result => exact raises_ok _
  | none =>
      refine (nextVersion_refuses found _).bind fun version hversion => ?_
      obtain ⟨current, hstate, rfl, addressed⟩ := addressed_of hzone hheader hreplay hversion
      have hid := addressed.schedule_id
      subst hid
      refine (validate_refuses ok.sources owner now fun dates => ?_).bind fun _ _ => ?_
      · refine supported_of_saved ok addressed.schedule_mem addressed.current_mem ?_
        rw [← hstate]
        exact dates _ rfl
      · refine (allocations_refuses owner _ _).bind fun allocated halloc => ?_
        have hallocated := (allocations_ok halloc).2.2
        refine Raises.bind (raises_of_total (insertState_total fun row hrow hsame => ?_))
          fun inserted hinsert => ?_
        · -- The new revision is above every stored one.
          obtain ⟨hmem, -⟩ := Table.mem_delete.mp hrow
          rw [hallocated] at hmem
          have hle := (ok.schedules _ addressed.schedule_mem).bounded row
            (mem_historyRows.mpr ⟨hmem, hsame.1⟩)
          have heq := addressed.version_eq
          omega
        · refine finish_refuses ?_ _ _ _
          change inserted.commands.find? _ = none
          rw [(insertState_ok hinsert).2.2]
          change allocated.commands.find? _ = none
          rw [hallocated]
          exact addressed.unanswered

theorem travel_refuses (ok : StoreOk zoneInfo store) (owner scheduleId : UUID)
    (data : HistoryCommand) (direction : Direction) (now stamp : Int) :
    Raises Refusal (travel zoneInfo store owner scheduleId data direction now stamp) := by
  unfold travel
  refine (ownerLock_refuses owner).bind fun zone hzone => ?_
  refine (header_refuses owner scheduleId).bind fun found hheader => ?_
  refine (replay_refuses owner _ _).bind fun replayed hreplay => ?_
  cases replayed with
  | some result => exact raises_ok _
  | none =>
      refine (nextVersion_refuses found _).bind fun version hversion => ?_
      obtain ⟨current, hstate, rfl, addressed⟩ := addressed_of hzone hheader hreplay hversion
      have hid := addressed.schedule_id
      subst hid
      split
      · exact raises_error (refusal _)
      · next goal hgoal =>
          refine (validate_refuses ok.sources owner now fun dates => ?_).bind fun _ _ => ?_
          · exact supported_of_saved ok addressed.schedule_mem (target_mem hgoal) ⟨rfl, rfl⟩
          · refine (allocations_refuses owner _ _).bind fun allocated halloc => ?_
            refine finish_refuses ?_ _ _ _
            change allocated.commands.find? _ = none
            rw [(allocations_ok halloc).2.2]
            exact addressed.unanswered

end ScheduleRepository

section
variable {zoneInfo : String → Zone} {store : Store}

/-- The store holds what the commands of a client left. -/
structure Readable (zoneInfo : String → Zone) (store : Store) : Prop where
  ok : StoreOk zoneInfo store
  patterns : PatternsValid store
  references : References store

theorem readable_reached (zoneInfo : String → Zone) (commands : List Command) :
    Readable zoneInfo (reached zoneInfo commands) :=
  ⟨storeOk_reached zoneInfo commands, reached_patterns zoneInfo commands,
    references_reached commands⟩

variable (readable : Readable zoneInfo store)
include readable

theorem perform_refuses {command : Command} (ready : command.Ready zoneInfo store)
    (registered : command.Registered store) :
    Raises Refusal (perform zoneInfo store command) := by
  obtain ⟨ok, patterns, references⟩ := readable
  have sources := ok.sources
  cases command with
  | register id email timezone stamp =>
      exact raises_map (Repository.register_refuses references ready email timezone stamp)
  | createTask owner task id stamp =>
      exact raises_map
        (Repository.createTask_refuses sources registered ready.1 ready.2 stamp)
  | updateTask owner taskId patch stamp =>
      exact raises_map (Repository.updateTask_refuses sources
        (fun row hrow => (references.checked row hrow).1.1) owner taskId ready stamp)
  | deleteTask owner taskId expectedVersion stamp =>
      exact Repository.raises_deleteTask sources owner taskId expectedVersion stamp
  | updatePreferences owner update stamp =>
      exact raises_map (Repository.updatePreferences_refuses sources owner ready stamp)
  | createRecurrence owner data id stamp =>
      exact raises_map (RecurrenceRepository.create_refuses patterns owner data ready stamp)
  | replaceRecurrence owner recurrenceId data stamp =>
      exact raises_map
        (RecurrenceRepository.replace_refuses patterns owner recurrenceId data stamp)
  | deleteRecurrence owner recurrenceId expectedVersion stamp =>
      exact RecurrenceRepository.delete_refuses patterns owner recurrenceId expectedVersion stamp
  | materialize owner recurrenceId request fresh now stamp =>
      exact raises_map (RecurrenceRepository.materialize_refuses sources patterns references
        zoneInfo owner recurrenceId request ready.1 ready.2 now stamp)
  | createEvent owner data id stamp =>
      exact raises_map (FixedEventRepository.create_refuses registered ready.1 ready.2 stamp)
  | replaceEvent owner eventId data stamp =>
      exact raises_map (FixedEventRepository.replace_refuses owner eventId ready stamp)
  | deleteEvent owner eventId expectedVersion =>
      exact FixedEventRepository.delete_refuses owner eventId expectedVersion
  | createSchedule owner data scheduleId now stamp =>
      exact raises_map (ScheduleRepository.create_refuses ok now stamp ready)
  | replaceSchedule owner scheduleId data now stamp =>
      exact raises_map (ScheduleRepository.replace_refuses ok owner scheduleId data now stamp)
  | travelSchedule owner scheduleId data direction now stamp =>
      exact raises_map
        (ScheduleRepository.travel_refuses ok owner scheduleId data direction now stamp)

theorem answerCommand_refuses {command : Command} (ready : command.Ready zoneInfo store)
    (registered : command.Registered store) :
    Raises Refusal (answerCommand zoneInfo store command) := by
  intro error h
  refine perform_refuses readable ready registered error ?_
  rw [← snd_answerCommand, h]
  rfl

theorem answerQuery_refuses (owner : UUID) {query : Query} (ready : query.Ready) :
    Raises Refusal (answerQuery store owner query) := by
  obtain ⟨ok, patterns, -⟩ := readable
  cases query with
  | task taskId =>
      exact raises_map ((Repository.raises_getTask ok.sources owner taskId).mono
        fun _ h => ⟨_, h⟩)
  | tasks limit offset =>
      exact raises_map (raises_of_total (Repository.listTasks_total ok.sources owner limit offset))
  | planningInputs taskIds =>
      exact raises_map (Repository.raises_planningInputs ok.sources owner taskIds)
  | preferences => exact raises_map (Repository.getPreferences_refuses ok.sources owner)
  | recurrence recurrenceId =>
      exact raises_map (RecurrenceRepository.get_refuses patterns owner recurrenceId)
  | recurrences limit offset =>
      exact raises_map
        (raises_of_total (RecurrenceRepository.list_total patterns owner limit offset))
  | event eventId => exact raises_map (FixedEventRepository.get_refuses owner eventId)
  | schedule scheduleId => exact raises_map (ScheduleRepository.view_refuses owner scheduleId)
  | history scheduleId => exact raises_map (ScheduleRepository.history_refuses owner scheduleId)
  | events start stop limit offset =>
      exact raises_map (raises_of_total ⟨_, FixedEventRepository.page_eq ready.1 ready.2⟩)
  | planningEvents start stop =>
      exact raises_map (raises_of_total ⟨_,
        FixedEventRepository.page_eq_planningEvents ready.1 ready.2⟩)
  | schedules => exact raises_ok _

end

end SmartPlanner
