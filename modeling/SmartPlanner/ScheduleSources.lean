import SmartPlanner.ScheduleRepository
import SmartPlanner.LayoutInspection

/-!
The sources of a saved layout. `Current` says which records a candidate's
versions name in a store; `_sources` succeeds exactly on current candidates,
and `_view` reports a state as fresh exactly when it is current.
-/

namespace SmartPlanner

open Outcome Sorting Tables ScheduleRepository

/-- The records are the live rows of the owner with these ids, in this order. -/
structure RecordsOf (store : Store) (owner : UUID) (ids : List UUID)
    (tasks : List TaskRecord) : Prop where
  ids_eq : tasks.map (·.id) = ids
  stored : ∀ task ∈ tasks, ∃ row ∈ store.tasks,
    row.userId = owner ∧ row.deletedAt = none ∧ row.toTaskColumns = task.toTaskColumns

/-- The versions a candidate names are the present ones, of these records. -/
structure Current (store : Store) (owner : UUID) (candidate : Candidate)
    (tasks : List TaskRecord) (values : PreferenceValues) : Prop where
  records : RecordsOf store owner candidate.content.taskIds tasks
  versions : ∀ task ∈ tasks, (task.id, task.version) ∈ candidate.taskVersions
  preferences : ∃ row ∈ store.preferences, row.userId = owner ∧
    row.version = candidate.preferenceVersion ∧ row.values = values

theorem RecordsOf.unique {store : Store} {owner : UUID} {ids : List UUID}
    {xs ys : List TaskRecord} (hx : RecordsOf store owner ids xs)
    (hy : RecordsOf store owner ids ys) : xs = ys := by
  obtain ⟨hxids, hx⟩ := hx
  obtain ⟨hyids, hy⟩ := hy
  have hids := hxids.trans hyids.symm
  clear hxids hyids
  induction xs generalizing ys with
  | nil =>
      cases ys with
      | nil => rfl
      | cons y ys => simp at hids
  | cons x xs ih =>
      cases ys with
      | nil => simp at hids
      | cons y ys =>
          simp only [List.map_cons, List.cons.injEq] at hids
          simp only [List.forall_mem_cons] at hx hy
          obtain ⟨a, ha, -, -, hax⟩ := hx.1
          obtain ⟨b, hb, -, -, hby⟩ := hy.1
          have hkey : a.id = b.id := by
            rw [hax, hby]
            exact hids.1
          have hab := store.tasks.eq_of_key ha hb hkey
          have hxy : x = y :=
            TaskRecord.eq_of_columns (hax.symm.trans ((congrArg _ hab).trans hby))
          rw [hxy, ih hx.2 hy.2 hids.2]

theorem liveRow_select {store : Store} {p : TaskRow → Bool} {taskId : UUID} {row : TaskRow} :
    liveRow (store.tasks.select p) taskId = some row ↔
      row ∈ store.tasks ∧ p row = true ∧ row.id = taskId := by
  unfold liveRow
  constructor
  · intro h
    have hmem := Table.mem_select.mp (List.mem_of_find?_eq_some h)
    exact ⟨hmem.1, hmem.2, by simpa using List.find?_some h⟩
  · rintro ⟨hmem, hp, rfl⟩
    cases hfind : (store.tasks.select p).find? fun other => other.id = row.id with
    | none =>
        rw [List.find?_eq_none] at hfind
        exact absurd (by simp) (hfind row (Table.mem_select.mpr ⟨hmem, hp⟩))
    | some other =>
        have hother := Table.mem_select.mp (List.mem_of_find?_eq_some hfind)
        have hkey : other.id = row.id := by simpa using List.find?_some hfind
        rw [store.tasks.eq_of_key hother.1 hmem hkey]

theorem liveRow_liveRows {store : Store} {owner : UUID} {candidate : Candidate}
    {previous : Option Candidate} {taskId : UUID} {row : TaskRow} :
    liveRow (liveRows store owner candidate previous) taskId = some row ↔
      row ∈ store.tasks ∧ row.userId = owner ∧ row.id = taskId ∧
      (taskId ∈ candidate.content.taskIds ∨ ∃ old ∈ previous, taskId ∈ old.content.taskIds) := by
  unfold liveRows
  rw [liveRow_select]
  simp only [Bool.and_eq_true, decide_eq_true_eq, List.mem_append]
  constructor
  · rintro ⟨hmem, ⟨howner, hids⟩, rfl⟩
    refine ⟨hmem, howner, rfl, ?_⟩
    rcases hids with h | h
    · exact Or.inl h
    · cases previous with
      | none => simp at h
      | some old => exact Or.inr ⟨old, rfl, by simpa using h⟩
  · rintro ⟨hmem, howner, rfl, hids⟩
    refine ⟨hmem, ⟨howner, ?_⟩, rfl⟩
    rcases hids with h | ⟨old, ho, h⟩
    · exact Or.inl h
    · rw [Option.mem_def.mp ho]
      exact Or.inr (by simpa using h)

theorem selectedTask_ok {live : List TaskRow} {taskId : UUID} {task : TaskRecord} :
    selectedTask live taskId = .ok task ↔
      ∃ row, liveRow live taskId = some row ∧ task.toTaskColumns = row.toTaskColumns := by
  unfold selectedTask
  cases h : liveRow live taskId with
  | none => simp
  | some row => simp [TaskRecord.modelValidate_ok]

/-- `_sources` succeeds exactly on a current candidate. -/
theorem sources_ok {store : Store} {owner : UUID} {candidate : Candidate}
    {previous : Option Candidate} {tasks : List TaskRecord} {live : List TaskRow}
    {values : PreferenceValues} :
    (∃ record, sources store owner candidate previous =
        .ok (tasks, record, live) ∧ record.toPreferenceValues = values) ↔
      Current store owner candidate tasks values ∧
      live = liveRows store owner candidate previous := by
  have inverse : ∀ id task, selectedTask
      (liveRows store owner candidate previous) id = .ok task → task.id = id := by
    intro id task h
    obtain ⟨row, hrow, hcolumns⟩ := selectedTask_ok.mp h
    rw [hcolumns]
    exact (liveRow_liveRows.mp hrow).2.2.1
  unfold sources
  cases hfind : store.preferences.find? owner with
  | none =>
      simp only [reduceCtorEq, false_and, exists_false, false_iff, not_and]
      rintro ⟨-, -, row, hrow, howner, -⟩
      exact absurd howner (Table.find?_eq_none.mp hfind row hrow)
  | some preference =>
      obtain ⟨hmem, howner⟩ := Table.find?_eq_some.mp hfind
      simp only [raiseIf_bind_ok]
      simp only [bind_ok, pure_eq_ok, Except.ok.injEq, Prod.mk.injEq]
      simp only [mapM_ok_of_inverse inverse, not_exists_mem_not, ne_eq, not_not]
      constructor
      · rintro ⟨record, ⟨hversion, hfresh, records, ⟨hids, hrecords⟩, record', hrecord,
          rfl, rfl, rfl⟩, rfl⟩
        have stored : ∀ task ∈ records, ∃ row ∈ store.tasks, row.userId = owner ∧
            row.deletedAt = none ∧ row.toTaskColumns = task.toTaskColumns ∧
            (task.id, task.version) ∈ candidate.taskVersions := by
          intro task ht
          obtain ⟨row, hrow, hcolumns⟩ := selectedTask_ok.mp (hrecords task ht)
          have hid : task.id ∈ candidate.taskVersions.map Prod.fst :=
            (candidate.selected_iff task.id).mpr (hids ▸ List.mem_map_of_mem ht)
          obtain ⟨entry, hentry, hfst⟩ := List.mem_map.mp hid
          obtain ⟨row', hrow', hlive, hversion'⟩ := hfresh entry hentry
          rw [hfst, Option.mem_def, hrow] at hrow'
          cases hrow'
          obtain ⟨hmem', howner', -⟩ := liveRow_liveRows.mp hrow
          refine ⟨row, hmem', howner', hlive, hcolumns.symm, ?_⟩
          rw [hcolumns, hversion', ← hcolumns, ← hfst]
          exact hentry
        refine ⟨⟨⟨hids, fun task ht => ?_⟩, fun task ht => ?_, preference, hmem, howner,
          hversion, (PreferenceRecord.modelValidate_ok.mp hrecord).1.symm⟩, rfl⟩
        · obtain ⟨row, h₁, h₂, h₃, h₄, -⟩ := stored task ht
          exact ⟨row, h₁, h₂, h₃, h₄⟩
        · obtain ⟨-, -, -, -, -, h⟩ := stored task ht
          exact h
      · rintro ⟨⟨⟨hids, stored⟩, hversions, row, hrow, hrowner, hversion, hvalues⟩, rfl⟩
        have hsame : row = preference := store.preferences.eq_of_key hrow hmem
          (hrowner.trans howner.symm)
        subst hsame
        have live : ∀ task ∈ tasks, ∃ row, liveRow (liveRows store owner candidate previous)
            task.id = some row ∧ row.deletedAt = none ∧
            row.toTaskColumns = task.toTaskColumns := by
          intro task ht
          obtain ⟨row, hmem, howner, hlive, hcolumns⟩ := stored task ht
          refine ⟨row, liveRow_liveRows.mpr ⟨hmem, howner, ?_, Or.inl ?_⟩, hlive, hcolumns⟩
          · rw [hcolumns]
          · exact hids ▸ List.mem_map_of_mem ht
        have valid : VersionValid row.version := by
          rw [hversion]
          exact candidate.candidateValid.2.2.2.2
        refine ⟨⟨row.values, row.userId, row.version, row.updatedAt, valid⟩,
          ⟨hversion, ?_, tasks, ⟨hids, ?_⟩, _,
            PreferenceRecord.modelValidate_ok.mpr ⟨rfl, rfl, rfl, rfl⟩, rfl, rfl, rfl⟩, hvalues⟩
        · intro entry hentry
          have hid : entry.1 ∈ tasks.map (·.id) := by
            rw [hids, ← candidate.selected_iff]
            exact List.mem_map_of_mem hentry
          obtain ⟨task, ht, hfst⟩ := List.mem_map.mp hid
          obtain ⟨row, hrow, hlive, hcolumns⟩ := live task ht
          refine ⟨row, hfst ▸ hrow, hlive, ?_⟩
          have hsame := List.inj_on_of_nodup_map candidate.versions_distinct
            (hversions task ht) hentry hfst
          rw [hcolumns, ← hsame]
        · intro task ht
          obtain ⟨row, hrow, -, hcolumns⟩ := live task ht
          exact selectedTask_ok.mpr ⟨row, hrow, hcolumns.symm⟩

/-- The rows read for a state are the owner's rows with the ids it names. -/
theorem liveRow_named {store : Store} {owner : UUID} {state : SavedState} {entry : UUID × Nat}
    (hentry : entry ∈ state.taskVersions) {row : TaskRow} :
    liveRow (store.tasks.select fun row => row.userId = owner &&
        row.id ∈ state.taskVersions.map Prod.fst) entry.1 = some row ↔
      row ∈ store.tasks ∧ row.userId = owner ∧ row.id = entry.1 := by
  rw [liveRow_select]
  simp only [Bool.and_eq_true, decide_eq_true_eq]
  constructor
  · rintro ⟨h₁, ⟨h₂, -⟩, h₃⟩
    exact ⟨h₁, h₂, h₃⟩
  · rintro ⟨h₁, h₂, h₃⟩
    exact ⟨h₁, ⟨h₂, h₃ ▸ List.mem_map_of_mem hentry⟩, h₃⟩

/-- A state is fresh when every row it names is live at the named version. -/
theorem sourceStatus_fresh {store : Store} {owner : UUID} {state : SavedState} :
    (sourceStatus store owner state).stale = false ↔
      (∃ row ∈ store.preferences, row.userId = owner ∧ row.version = state.preferenceVersion) ∧
      ∀ entry ∈ state.taskVersions, ∃ row ∈ store.tasks, row.id = entry.1 ∧
        row.userId = owner ∧ row.deletedAt = none ∧ row.version = entry.2 := by
  unfold sourceStatus
  simp only [Bool.or_eq_false_iff, decide_eq_false_iff_not, ne_eq, not_not,
    Bool.not_eq_false', Option.any_eq_true, decide_eq_true_eq]
  rw [Table.exists_key_iff]
  cases hfind : store.preferences.find? owner with
  | none => simp
  | some preference =>
      have hlive := fun entry hentry row =>
        @liveRow_named store owner state entry hentry row
      generalize (store.tasks.select fun row => decide (row.userId = owner) &&
        decide (row.id ∈ state.taskVersions.map Prod.fst)) = live at hlive ⊢
      rw [and_comm]
      simp only [Option.isSome_some, if_true, Option.some.injEq, exists_eq_left']
      refine and_congr_right fun _ => ?_
      simp only [List.filter_eq_nil_iff, List.map_eq_nil_iff, List.mem_map,
        forall_exists_index, and_imp, forall_apply_eq_imp_iff₂]
      constructor
      · rintro ⟨hmissing, hchanged⟩ entry hentry
        have hm := hmissing entry hentry
        have hc := hchanged entry hentry
        simp only [Bool.not_eq_true', Bool.not_eq_false, Option.any_eq_true,
          decide_eq_true_eq] at hm
        obtain ⟨row, hrow, hdeleted⟩ := hm
        obtain ⟨h₁, h₂, h₃⟩ := (hlive entry hentry row).mp hrow
        refine ⟨row, h₁, h₃, h₂, hdeleted, ?_⟩
        by_contra hne
        exact hc (by simp [hrow, hdeleted, hne])
      · intro h
        refine ⟨fun entry hentry => ?_, fun entry hentry => ?_⟩
        · obtain ⟨row, h₁, h₂, h₃, h₄, -⟩ := h entry hentry
          have hrow := (hlive entry hentry row).mpr ⟨h₁, h₃, h₂⟩
          simp [hrow, h₄]
        · obtain ⟨row, h₁, h₂, h₃, h₄, h₅⟩ := h entry hentry
          have hrow := (hlive entry hentry row).mpr ⟨h₁, h₃, h₂⟩
          simp [hrow, h₄, h₅]

/-- Live rows of valid columns can be read as records. -/
theorem recordsOf_exists {store : Store} {owner : UUID} {ids : List UUID}
    (valid : ∀ row ∈ store.tasks, row.deletedAt = none → row.toTaskColumns.Valid)
    (live : ∀ id ∈ ids, ∃ row ∈ store.tasks, row.id = id ∧ row.userId = owner ∧
      row.deletedAt = none) : ∃ tasks, RecordsOf store owner ids tasks := by
  induction ids with
  | nil => exact ⟨[], rfl, by simp⟩
  | cons id ids ih =>
      rw [List.forall_mem_cons] at live
      obtain ⟨row, hrow, hid, howner, hlive⟩ := live.1
      obtain ⟨tasks, hids, stored⟩ := ih live.2
      refine ⟨⟨row.toTaskColumns, valid row hrow hlive⟩ :: tasks, ?_, ?_⟩
      · rw [List.map_cons, hids, ← hid]
      · rw [List.forall_mem_cons]
        exact ⟨⟨row, hrow, howner, hlive, rfl⟩, stored⟩

/-- Over valid rows, a fresh state is current. -/
theorem current_of_fresh {store : Store} {owner : UUID} {state : SavedState}
    (valid : ∀ row ∈ store.tasks, row.deletedAt = none → row.toTaskColumns.Valid)
    (fresh : (sourceStatus store owner state).stale = false) :
    ∃ tasks values, Current store owner state.toCandidate tasks values := by
  obtain ⟨⟨preference, hmem, howner, hversion⟩, hrows⟩ := sourceStatus_fresh.mp fresh
  have named : ∀ id ∈ state.content.taskIds, ∃ entry ∈ state.taskVersions, entry.1 = id :=
    fun id hid => List.mem_map.mp ((state.toCandidate.selected_iff id).mpr hid)
  have live : ∀ id ∈ state.content.taskIds, ∃ row ∈ store.tasks, row.id = id ∧
      row.userId = owner ∧ row.deletedAt = none := by
    intro id hid
    obtain ⟨entry, hentry, rfl⟩ := named id hid
    obtain ⟨row, hrow, hsame, hrowner, hlive, -⟩ := hrows entry hentry
    exact ⟨row, hrow, hsame, hrowner, hlive⟩
  obtain ⟨tasks, records⟩ := recordsOf_exists valid live
  refine ⟨tasks, preference.values, records, fun task ht => ?_, preference, hmem, howner,
    hversion, rfl⟩
  obtain ⟨entry, hentry, hid⟩ := named task.id (records.ids_eq ▸ List.mem_map_of_mem ht)
  obtain ⟨row, hrow, hsame, -, -, hentryVersion⟩ := hrows entry hentry
  obtain ⟨other, hother, -, -, hcolumns⟩ := records.stored task ht
  have hrowSame : row = other := store.tasks.eq_of_key hrow hother (by
    rw [hsame, hid, hcolumns])
  have hversions : task.version = entry.2 := by
    rw [← hentryVersion, hrowSame, hcolumns]
  rw [← hid, hversions]
  exact hentry

theorem Current.fresh {store : Store} {owner : UUID} {state : SavedState}
    {tasks : List TaskRecord} {values : PreferenceValues}
    (current : Current store owner state.toCandidate tasks values) :
    (sourceStatus store owner state).stale = false := by
  obtain ⟨⟨hids, stored⟩, hversions, row, hrow, howner, hversion, -⟩ := current
  refine sourceStatus_fresh.mpr ⟨⟨row, hrow, howner, hversion⟩, fun entry hentry => ?_⟩
  have hid : entry.1 ∈ tasks.map (·.id) := by
    rw [hids, ← state.toCandidate.selected_iff]
    exact List.mem_map_of_mem hentry
  obtain ⟨task, ht, hfst⟩ := List.mem_map.mp hid
  obtain ⟨row, hmem, howner, hlive, hcolumns⟩ := stored task ht
  have hsame := List.inj_on_of_nodup_map state.toCandidate.versions_distinct
    (hversions task ht) hentry hfst
  refine ⟨row, hmem, ?_, howner, hlive, ?_⟩
  · rw [hcolumns, hfst]
  · rw [hcolumns, ← hsame]

end SmartPlanner
