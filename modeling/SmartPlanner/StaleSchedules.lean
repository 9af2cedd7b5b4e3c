import SmartPlanner.FreshView
import SmartPlanner.UndoRedo

/-!
Staleness is exact. The command that last moved the cursor of a schedule left it
fresh; the sources it names and the preferences have not changed since exactly as
long as the view says so, and the view names those that have.
-/

namespace SmartPlanner

open Outcome Runs Tables ScheduleRepository

theorem SourcesEvolve.trans {store middle store' : Store} (first : SourcesEvolve store middle)
    (second : SourcesEvolve middle store') : SourcesEvolve store store' where
  users user h := second.users user (first.users user h)
  tasks := first.tasks.trans (fun _ _ _ h h' => ⟨h'.1.trans h.1, h.2.trans h'.2⟩) second.tasks
  preferences := first.preferences.trans (fun _ _ _ h h' => Nat.lt_trans h h') second.preferences
  valid h := second.valid (first.valid h)

/-- A command of a run made this row of a schedule what it still is, with this
version in force. -/
structure LastCommit (zoneInfo : String → Zone) (commands earlier : List Command)
    (command : Command) (after : List Command) (schedule : ScheduleRow) (row : VersionRow) :
    Prop where
  split : commands = earlier ++ command :: after
  moved : ∀ old ∈ (reached zoneInfo earlier).schedules, old.id = schedule.id →
    old.version ≠ schedule.version
  stored : schedule ∈ (reached zoneInfo (earlier ++ [command])).schedules
  current : CurrentRow (reached zoneInfo (earlier ++ [command])) schedule row
  fresh : ∃ tasks values, Current (reached zoneInfo (earlier ++ [command])) schedule.userId
    row.state.toCandidate tasks values
  evolve : SourcesEvolve (reached zoneInfo (earlier ++ [command])) (reached zoneInfo commands)

/-- A command that moves the cursor raises the version. -/
theorem Addressed.moves {store : Store} {owner scheduleId requestId : UUID}
    {expectedVersion : Nat} {schedule old : ScheduleRow} {current : VersionRow}
    (addressed : Addressed store owner scheduleId requestId expectedVersion schedule current)
    (hold : old ∈ store.schedules) (hid : old.id = schedule.id) :
    old.version ≠ expectedVersion + 1 := by
  rw [store.schedules.eq_of_key hold addressed.schedule_mem hid, addressed.version_eq]
  exact (Nat.succ_ne_self _).symm

section
variable {zoneInfo : String → Zone}

theorem LastCommit.later {commands earlier after : List Command} {command next : Command}
    {schedule : ScheduleRow} {row : VersionRow}
    (last : LastCommit zoneInfo commands earlier command after schedule row)
    (grow : SourcesEvolve (reached zoneInfo commands) (reached zoneInfo (commands ++ [next]))) :
    LastCommit zoneInfo (commands ++ [next]) earlier command (after ++ [next]) schedule row :=
  { last with
    split := by rw [last.split, List.append_assoc, List.cons_append]
    evolve := last.evolve.trans grow }

/-- The commit itself, where the records of the new version are the present ones. -/
theorem LastCommit.now {commands : List Command} {command : Command} {schedule : ScheduleRow}
    {row : VersionRow} {state : Candidate} {receipt : CommandRow} {tasks : List TaskRecord}
    {values : PreferenceValues}
    (moved : ∀ old ∈ (reached zoneInfo commands).schedules, old.id = schedule.id →
      old.version ≠ schedule.version)
    (commit : Commit (reached zoneInfo commands) (reached zoneInfo (commands ++ [command]))
      schedule state receipt)
    (current : CurrentRow (reached zoneInfo (commands ++ [command])) schedule row)
    (hstate : row.state.toCandidate = state)
    (fresh : Current (reached zoneInfo commands) schedule.userId state tasks values) :
    LastCommit zoneInfo (commands ++ [command]) commands command [] schedule row where
  split := rfl
  moved := moved
  stored := (commit.schedules schedule).mpr (Or.inr rfl)
  current := current
  fresh := ⟨tasks, values, hstate ▸ fresh.congr commit.tasks commit.preferences⟩
  evolve := .of_eq rfl rfl rfl

theorem exists_lastCommit (commands : List Command) :
    ∀ schedule ∈ (reached zoneInfo commands).schedules, ∀ row,
      CurrentRow (reached zoneInfo commands) schedule row →
      ∃ earlier command after,
        LastCommit zoneInfo commands earlier command after schedule row := by
  induction commands using List.reverseRecOn with
  | nil => exact fun schedule h => absurd h (Table.not_mem_empty schedule)
  | append_singleton commands command ih =>
      have ok := storeOk_reached zoneInfo commands
      have next : Transition zoneInfo (reached zoneInfo commands)
          (reached zoneInfo (commands ++ [command])) := by
        unfold reached
        rw [run_snoc]
        exact step_transition _ command
      intro schedule hs row hrow
      -- a schedule that the command leaves alone
      have kept : schedule ∈ (reached zoneInfo commands).schedules →
          CurrentRow (reached zoneInfo commands) schedule row →
          SourcesEvolve (reached zoneInfo commands) (reached zoneInfo (commands ++ [command])) →
          ∃ earlier first after,
            LastCommit zoneInfo (commands ++ [command]) earlier first after schedule row := by
        intro hold hcurrent grow
        obtain ⟨earlier, first, after, last⟩ := ih schedule hold row hcurrent
        exact ⟨earlier, first, after ++ [command], last.later grow⟩
      cases next with
      | sources grow =>
          exact kept (grow.schedules ▸ hs)
            ((currentRow_congr (historyRows_congr grow.versions _)).mp hrow) grow.toSourcesEvolve
      | created created =>
          have commit := created.commit
          rcases (commit.schedules schedule).mp hs with ⟨hold, hne⟩ | rfl
          · exact kept hold ((currentRow_congr (commit.otherHistories _ hne)).mp hrow)
              commit.evolve
          · have hrow' := hrow.unique (created.cursor ok)
            exact ⟨commands, command, [], .now (fun old hold hid =>
              absurd hid (created.freshId old hold)) commit hrow (by rw [hrow']; rfl)
              created.valid.current⟩
      | replaced replaced =>
          have commit := replaced.commit
          have addressed := replaced.addressed
          rcases (commit.schedules schedule).mp hs with ⟨hold, hne⟩ | rfl
          · exact kept hold ((currentRow_congr (commit.otherHistories _ hne)).mp hrow)
              commit.evolve
          · have hrow' := hrow.unique (replaced.cursor ok)
            refine ⟨commands, command, [], .now (fun old hold hid => ?_) commit hrow
              (by rw [hrow']; rfl) (addressed.schedule_user.symm ▸ replaced.valid.current)⟩
            exact addressed.moves hold hid
      | travelled travelled =>
          have commit := travelled.commit
          have addressed := travelled.addressed
          rcases (commit.schedules schedule).mp hs with ⟨hold, hne⟩ | rfl
          · exact kept hold ((currentRow_congr (commit.otherHistories _ hne)).mp hrow)
              commit.evolve
          · have hrow' := hrow.unique travelled.cursor
            refine ⟨commands, command, [], .now (fun old hold hid => ?_) commit hrow
              (by rw [hrow']) (addressed.schedule_user.symm ▸ travelled.valid.current)⟩
            exact addressed.moves hold hid

end

/-! What the view says about the sources. -/

/-- The sources of a saved schedule between two stores, as its view in the second
reports them. -/
structure SourcesSince (before after : Store) (owner : UUID) (saved : SavedSchedule) : Prop where
  missing : ∀ id, id ∈ saved.sources.missingTaskIds ↔ id ∈ saved.state.content.taskIds ∧
    Repository.getTask after owner id = .error (.app .notFound)
  changed : ∀ id, id ∈ saved.sources.changedTaskIds ↔ id ∈ saved.state.content.taskIds ∧
    (∃ task, Repository.getTask after owner id = .ok task) ∧
    Repository.getTask after owner id ≠ Repository.getTask before owner id
  preferences : saved.sources.preferencesChanged = true ↔
    Repository.getPreferences after owner ≠ Repository.getPreferences before owner
  stale : saved.sources.stale = true ↔
    (∃ id ∈ saved.state.content.taskIds,
      Repository.getTask after owner id ≠ Repository.getTask before owner id) ∨
    Repository.getPreferences after owner ≠ Repository.getPreferences before owner

section
variable {store : Store} {owner : UUID} {state : SavedState}

theorem sourceStatus_missing (account : ∃ row ∈ store.preferences, row.userId = owner) (id : UUID) :
    id ∈ (sourceStatus store owner state).missingTaskIds ↔
      id ∈ state.taskVersions.map Prod.fst ∧
      ¬ ∃ row ∈ store.tasks, row.id = id ∧ row.userId = owner ∧ row.deletedAt = none := by
  obtain ⟨preference, hpreference⟩ := account
  unfold sourceStatus
  rw [Table.find?_eq_some.mpr hpreference]
  simp only [Option.isSome_some, if_true, List.mem_filter, Bool.not_eq_true']
  refine and_congr_right fun hid => ?_
  obtain ⟨entry, hentry, rfl⟩ := List.mem_map.mp hid
  rw [Bool.eq_false_iff, ne_eq, Option.any_eq_true]
  refine not_congr (exists_congr fun row => ?_)
  rw [liveRow_named hentry, decide_eq_true_eq]
  tauto

theorem sourceStatus_changed (account : ∃ row ∈ store.preferences, row.userId = owner) (id : UUID) :
    id ∈ (sourceStatus store owner state).changedTaskIds ↔
      ∃ entry ∈ state.taskVersions, entry.1 = id ∧ ∃ row ∈ store.tasks, row.id = id ∧
        row.userId = owner ∧ row.deletedAt = none ∧ row.version ≠ entry.2 := by
  obtain ⟨preference, hpreference⟩ := account
  unfold sourceStatus
  rw [Table.find?_eq_some.mpr hpreference]
  simp only [Option.isSome_some, if_true]
  rw [List.mem_map]
  refine exists_congr fun entry => ?_
  rw [List.mem_filter, and_assoc]
  refine and_congr_right fun hentry => ?_
  rw [and_comm]
  refine and_congr_right fun hid => ?_
  subst hid
  rw [Option.any_eq_true]
  refine exists_congr fun row => ?_
  rw [liveRow_named hentry, Bool.and_eq_true, decide_eq_true_eq, decide_eq_true_eq]
  tauto

theorem sourceStatus_preferences :
    (sourceStatus store owner state).preferencesChanged = true ↔
      ¬ ∃ row ∈ store.preferences, row.userId = owner ∧
        row.version = state.preferenceVersion := by
  rw [Table.exists_key_iff]
  unfold sourceStatus
  simp only [Bool.not_eq_true', Bool.eq_false_iff, ne_eq, Option.any_eq_true, decide_eq_true_eq]

end

theorem Repository.getTask_of_live {store : Store} (valid : SourcesValid store) {row : TaskRow}
    (hrow : row ∈ store.tasks) (live : row.deletedAt = none) :
    Repository.getTask store row.userId row.id =
      .ok ⟨row.toTaskColumns, valid.tasks row hrow live⟩ :=
  Repository.getTask_ok.mpr ⟨row, hrow, rfl, rfl, live, rfl⟩

theorem Repository.getTask_notFound {store : Store} {owner taskId : UUID} :
    Repository.getTask store owner taskId = .error (.app .notFound) ↔
      ¬ ∃ row ∈ store.tasks, row.id = taskId ∧ row.userId = owner ∧ row.deletedAt = none := by
  unfold Repository.getTask
  cases hfind : store.tasks.rows.find? fun row => decide (row.id = taskId) &&
      decide (row.userId = owner) && decide (row.deletedAt = none) with
  | none =>
      rw [List.find?_eq_none] at hfind
      refine iff_of_true rfl ?_
      rintro ⟨row, hrow, hid, howner, hlive⟩
      exact hfind row hrow (by simp [hid, howner, hlive])
  | some row =>
      have hguard := List.find?_some hfind
      simp only [Bool.and_eq_true, decide_eq_true_eq] at hguard
      refine iff_of_false (fun h => ?_) fun none => none ⟨row, List.mem_of_find?_eq_some hfind,
        hguard.1.1, hguard.1.2, hguard.2⟩
      change TaskRecord.modelValidate row.toTaskColumns = _ at h
      unfold TaskRecord.modelValidate at h
      split at h <;> cases h

theorem Repository.getPreferences_of_mem {store : Store} (valid : SourcesValid store)
    {row : PreferenceRow} (hrow : row ∈ store.preferences) :
    Repository.getPreferences store row.userId =
      .ok ⟨row.values, row.userId, row.version, row.updatedAt, valid.preferences row hrow⟩ := by
  unfold Repository.getPreferences
  rw [Table.find?_eq_some.mpr ⟨hrow, rfl⟩]
  exact PreferenceRecord.modelValidate_ok.mpr ⟨rfl, rfl, rfl, rfl⟩

section
variable {before after : Store} {owner : UUID} {state : SavedState} {tasks : List TaskRecord}
  {values : PreferenceValues} (validBefore : SourcesValid before) (valid : SourcesValid after)
  (grow : SourcesEvolve before after)
  (current : Current before owner state.toCandidate tasks values)
include validBefore valid grow current

/-- A selected task is live at the version it was committed with exactly when it
reads as it did then. -/
theorem getTask_same_iff {entry : UUID × Nat} (hentry : entry ∈ state.taskVersions) :
    (∃ row ∈ after.tasks, row.id = entry.1 ∧ row.userId = owner ∧ row.deletedAt = none ∧
        row.version = entry.2) ↔
      Repository.getTask after owner entry.1 = Repository.getTask before owner entry.1 := by
  obtain ⟨old, hold, hid, howner, hlive, hversion⟩ :=
    (sourceStatus_fresh.mp current.fresh).2 entry hentry
  have read := Repository.getTask_of_live validBefore hold hlive
  rw [hid, howner] at read
  constructor
  · rintro ⟨row, hrow, hid', howner', hlive', hversion'⟩
    rcases grow.tasks.cases hold hrow (hid'.trans hid.symm) with rfl | hlater
    · have again := Repository.getTask_of_live valid hrow hlive'
      rw [hid, howner] at again
      rw [read, again]
    · have hlt := hlater.2
      rw [hversion, hversion'] at hlt
      exact absurd hlt (Nat.lt_irrefl _)
  · intro same
    rw [read] at same
    obtain ⟨row, hrow, hid', howner', hlive', hcolumns⟩ := Repository.getTask_ok.mp same
    refine ⟨row, hrow, hid', howner', hlive', ?_⟩
    rw [← hversion]
    exact congrArg TaskColumns.version hcolumns

theorem getPreferences_same_iff :
    (∃ row ∈ after.preferences, row.userId = owner ∧ row.version = state.preferenceVersion) ↔
      Repository.getPreferences after owner = Repository.getPreferences before owner := by
  obtain ⟨old, hold, howner, hversion⟩ := (sourceStatus_fresh.mp current.fresh).1
  have read := Repository.getPreferences_of_mem validBefore hold
  rw [howner] at read
  constructor
  · rintro ⟨row, hrow, howner', hversion'⟩
    rcases grow.preferences.cases hold hrow (howner'.trans howner.symm) with rfl | hlater
    · have again := Repository.getPreferences_of_mem valid hrow
      rw [howner] at again
      rw [read, again]
    · have hlt : old.version < row.version := hlater
      rw [hversion, hversion'] at hlt
      exact absurd hlt (Nat.lt_irrefl _)
  · intro same
    obtain ⟨row, hrow, hkey, hchange⟩ := grow.preferences old hold
    have again := Repository.getPreferences_of_mem valid hrow
    rw [show row.userId = owner from hkey.trans howner, same, read, Except.ok.injEq] at again
    exact ⟨row, hrow, hkey.trans howner,
      ((congrArg PreferenceRecord.version again).symm.trans hversion)⟩

theorem sourcesSince {saved : SavedSchedule} (hstate : saved.state = state)
    (hsources : saved.sources = sourceStatus after owner state) :
    SourcesSince before after owner saved := by
  subst hstate
  have selected := saved.state.toCandidate.selected_iff
  have account : ∃ row ∈ after.preferences, row.userId = owner := by
    obtain ⟨old, hold, howner, -⟩ := (sourceStatus_fresh.mp current.fresh).1
    obtain ⟨row, hrow, hkey, -⟩ := grow.preferences old hold
    exact ⟨row, hrow, hkey.trans howner⟩
  have readable : ∀ id, (∃ task, Repository.getTask after owner id = .ok task) ↔
      ∃ row ∈ after.tasks, row.id = id ∧ row.userId = owner ∧ row.deletedAt = none := by
    intro id
    constructor
    · rintro ⟨task, h⟩
      obtain ⟨row, hrow, hid, howner, hlive, -⟩ := Repository.getTask_ok.mp h
      exact ⟨row, hrow, hid, howner, hlive⟩
    · rintro ⟨row, hrow, rfl, rfl, hlive⟩
      exact ⟨_, Repository.getTask_of_live valid hrow hlive⟩
  have same := fun entry hentry =>
    @getTask_same_iff before after owner saved.state tasks values validBefore valid grow current
      entry hentry
  have kept := getPreferences_same_iff validBefore valid grow current
  refine ⟨fun id => ?_, fun id => ?_, ?_, ?_⟩
  · rw [hsources, sourceStatus_missing account, selected, Repository.getTask_notFound]
  · rw [hsources, sourceStatus_changed account, readable]
    constructor
    · rintro ⟨entry, hentry, rfl, row, hrow, hid, howner, hlive, hversion⟩
      refine ⟨(selected _).mp (List.mem_map_of_mem hentry), ⟨row, hrow, hid, howner, hlive⟩,
        fun heq => ?_⟩
      obtain ⟨other, hother, hid', -, -, hversion'⟩ := (same entry hentry).mpr heq
      rw [after.tasks.eq_of_key hrow hother (hid.trans hid'.symm)] at hversion
      exact hversion hversion'
    · rintro ⟨hid, ⟨row, hrow, hrid, howner, hlive⟩, hne⟩
      obtain ⟨entry, hentry, rfl⟩ := List.mem_map.mp ((selected id).mpr hid)
      refine ⟨entry, hentry, rfl, row, hrow, hrid, howner, hlive, fun hversion => hne ?_⟩
      exact (same entry hentry).mp ⟨row, hrow, hrid, howner, hlive, hversion⟩
  · rw [hsources, sourceStatus_preferences, kept]
  · rw [hsources, ← Bool.not_eq_false, sourceStatus_fresh, kept, not_and_or, or_comm]
    refine or_congr_left ?_
    simp only [not_forall]
    constructor
    · rintro ⟨entry, hentry, hne⟩
      exact ⟨entry.1, (selected _).mp (List.mem_map_of_mem hentry),
        fun heq => hne ((same entry hentry).mpr heq)⟩
    · rintro ⟨id, hid, hne⟩
      obtain ⟨entry, hentry, rfl⟩ := List.mem_map.mp ((selected id).mpr hid)
      exact ⟨entry, hentry, fun h => hne ((same entry hentry).mp h)⟩

end

theorem exists_view {store : Store} {schedule : ScheduleRow} {row : VersionRow}
    (hs : schedule ∈ store.schedules) (current : CurrentRow store schedule row) :
    ∃ saved, view store schedule.userId schedule.id = .ok saved := by
  have found : header store schedule.userId schedule.id = .ok {
      schedule
      state := row.state
      canUndo := store.versions.rows.any fun other =>
        other.scheduleId = schedule.id && other.revision < schedule.currentRevision
      canRedo := store.versions.rows.any fun other =>
        other.scheduleId = schedule.id && schedule.currentRevision < other.revision } :=
    header_ok.mpr ⟨row, hs, rfl, rfl, current.1, current.2, rfl, rfl, rfl⟩
  unfold view
  rw [found]
  exact ⟨_, rfl⟩

/-- In every reachable store, a view of a schedule reports what has changed since
the command that made its version current: that command left it fresh, and a
selected task or the preferences count as changed exactly when they no longer read
as they did then. -/
theorem view_sources_exact (zoneInfo : String → Zone) (commands : List Command)
    (owner scheduleId : UUID) (saved : SavedSchedule)
    (shown : view (reached zoneInfo commands) owner scheduleId = .ok saved) :
    ∃ earlier command after committed, commands = earlier ++ command :: after ∧
      (∀ old, view (reached zoneInfo earlier) owner scheduleId = .ok old →
        old.version ≠ saved.version) ∧
      view (reached zoneInfo (earlier ++ [command])) owner scheduleId = .ok committed ∧
      committed.version = saved.version ∧ committed.state = saved.state ∧
      committed.sources.stale = false ∧
      SourcesSince (reached zoneInfo (earlier ++ [command])) (reached zoneInfo commands) owner
        saved := by
  obtain ⟨schedule, hs, rfl, rfl, row, hrow, hstate, hversion, -, -, -, hsources⟩ := view_ok shown
  obtain ⟨earlier, command, after, last⟩ := exists_lastCommit commands schedule hs row hrow
  obtain ⟨tasks, values, fresh⟩ := last.fresh
  have validBefore := (storeOk_reached zoneInfo (earlier ++ [command])).sources
  have valid := (storeOk_reached zoneInfo commands).sources
  obtain ⟨committed, hview⟩ := exists_view last.stored last.current
  obtain ⟨schedule', hs', hid, -, row', hrow', hstate', hversion', -, -, -, hsources'⟩ :=
    view_ok hview
  obtain rfl := (reached zoneInfo (earlier ++ [command])).schedules.eq_of_key hs' last.stored hid
  obtain rfl := hrow'.unique last.current
  refine ⟨earlier, command, after, committed, last.split, fun old hold => ?_, hview,
    hversion'.trans hversion.symm, hstate'.trans hstate.symm, ?_, ?_⟩
  · obtain ⟨before, hbefore, hid', -, -, -, -, hold', -⟩ := view_ok hold
    rw [hold', hversion]
    exact last.moved before hbefore hid'
  · rw [hsources']
    exact fresh.fresh
  · exact sourcesSince validBefore valid last.evolve fresh hstate hsources

/-- The moved essay, whose task is then deleted. -/
def droppedEssayRun : List Command := essayRun ++ [.deleteTask 1 1 1 0]

theorem view_sources_exact_droppedEssay :
    ∃ saved earlier command after,
      view (reached (fun _ => Zone.utc) droppedEssayRun) 1 7 = .ok saved ∧
      saved.sources.missingTaskIds = [1] ∧ droppedEssayRun = earlier ++ command :: after ∧
      SourcesSince (reached (fun _ => Zone.utc) (earlier ++ [command]))
        (reached (fun _ => Zone.utc) droppedEssayRun) 1 saved := by
  have shown : okAnd (view (reached (fun _ => Zone.utc) droppedEssayRun) 1 7) (fun saved =>
      saved.sources.missingTaskIds = [1]) = true := by
    decide +kernel
  obtain ⟨saved, h, hmissing⟩ := exists_of_okAnd shown
  obtain ⟨earlier, command, after, -, hsplit, -, -, -, -, -, since⟩ :=
    view_sources_exact (fun _ => Zone.utc) droppedEssayRun 1 7 saved h
  exact ⟨saved, earlier, command, after, h, of_decide_eq_true hmissing, hsplit, since⟩

end SmartPlanner
