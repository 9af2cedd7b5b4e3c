import SmartPlanner.FreshView
import SmartPlanner.StoreReached

/-!
Stored commitments and the save path. `_validate` reads no row of
`fixed_events`, so a commit keeps clear of the stored events exactly as far as
the content itself closes their time.
-/

namespace SmartPlanner

open Histories Outcome Runs Tables ScheduleRepository

/-- A schedule command that committed, with its answer and the next store. -/
inductive Commits (zoneInfo : String → Zone) (store : Store) (owner : UUID)
    (result : ScheduleResult) (store' : Store) : Command → Prop
  | create {data : ScheduleCreate} {scheduleId : UUID} {now stamp : Int}
      (h : create zoneInfo store owner data scheduleId now stamp = .ok (result, store'))
      (committed : result.replayed = false) :
      Commits zoneInfo store owner result store' (.createSchedule owner data scheduleId now stamp)
  | replace {data : ScheduleReplace} {scheduleId : UUID} {now stamp : Int}
      (h : replace zoneInfo store owner scheduleId data now stamp = .ok (result, store'))
      (committed : result.replayed = false) :
      Commits zoneInfo store owner result store' (.replaceSchedule owner scheduleId data now stamp)
  | travel {data : HistoryCommand} {direction : Direction} {scheduleId : UUID} {now stamp : Int}
      (h : travel zoneInfo store owner scheduleId data direction now stamp = .ok (result, store'))
      (committed : result.replayed = false) :
      Commits zoneInfo store owner result store'
        (.travelSchedule owner scheduleId data direction now stamp)

/-- No block a command makes current meets an event its owner has stored. -/
def CommitsClear (zoneInfo : String → Zone) (store : Store) (command : Command) : Prop :=
  ∀ owner result store', Commits zoneInfo store owner result store' command →
    ∀ block ∈ result.schedule.state.content.blocks, ∀ event ∈ store'.events,
      event.userId = owner → event.Clear block.toTimeWindow

/-- The owner and the content that a schedule command asks for: its own, or that
of the neighbouring version. -/
def requestedContent (store : Store) : Command → Option (UUID × ScheduleContent)
  | .createSchedule owner data _ _ _ => some (owner, data.content)
  | .replaceSchedule owner _ data _ _ => some (owner, data.content)
  | .travelSchedule owner scheduleId _ direction _ _ =>
      match header store owner scheduleId with
      | .ok found => (target store scheduleId found.schedule.currentRevision direction).map
          fun row => (owner, row.state.content)
      | .error _ => none
  | _ => none

/-- The content leaves no time of a stored event open: whatever it offers of it
is under one of its own fixed events. -/
def ClosesStored (store : Store) (owner : UUID) (content : ScheduleContent) : Prop :=
  ∀ event ∈ store.events, event.userId = owner → ∀ slot ∈ content.availability, ∀ t,
    slot.Contains t → event.start ≤ t → t < event.stop →
    ∃ listed ∈ content.fixedEvents, listed.toTimeWindow.Contains t

def RequestClosesStored (store : Store) (command : Command) : Prop :=
  ∀ request ∈ requestedContent store command, ClosesStored store request.1 request.2

/-- An allowed block stays in the open time of its content. -/
theorem BlockAllowed.clear {start stop now : Int} {content : ScheduleContent} {task : TaskRecord}
    {block : TimeWindow} {store : Store} {owner : UUID}
    (allowed : BlockAllowed start stop now content.toPlanningWindow task block)
    (closes : ClosesStored store owner content) {event : FixedEventRow}
    (hevent : event ∈ store.events) (howner : event.userId = owner) : event.Clear block := by
  by_contra hmeet
  unfold FixedEventRow.Clear at hmeet
  rw [not_or, not_le, not_le] at hmeet
  have hblock := block.windowValid.2.2
  have hstored := event.eventValid.2.1
  have hin : block.Contains (max block.start event.start) := by
    unfold TimeWindow.Contains
    omega
  obtain ⟨slot, hslot, hopen⟩ := allowed.available _ hin
  obtain ⟨listed, hlisted, hclosed⟩ :=
    closes event hevent howner slot hslot _ hopen (by omega) (by omega)
  have hapart := allowed.apartEvents listed hlisted
  unfold TimeWindow.Apart at hapart
  unfold TimeWindow.Contains at hin hclosed
  omega

theorem Validated.clear {zoneInfo : String → Zone} {store : Store} {owner : UUID}
    {candidate : Candidate} {zone : String} {previous : Option Candidate} {now : Int}
    {tasks : List TaskRecord} {values : PreferenceValues} {report : LayoutReport}
    (valid : Validated zoneInfo store owner candidate zone previous now tasks values report)
    (closes : ClosesStored store owner candidate.content) :
    ∀ block ∈ candidate.content.blocks, ∀ event ∈ store.events, event.userId = owner →
      event.Clear block.toTimeWindow := by
  intro block hb event hevent howner
  obtain ⟨layout, -⟩ := inspectLayout_report valid.inspected
  obtain ⟨task, ht, hpending, hid⟩ := layout.pending block hb
  exact (layout.allowed task ht hpending block (mem_blocksOf.mpr ⟨hb, hid⟩)).clear closes hevent
    howner

section
variable {zoneInfo : String → Zone} {store store' : Store} {owner : UUID}
  {result : ScheduleResult}

/-- The layout an answer shows is the state of the commit. -/
theorem Commit.answer {schedule : ScheduleRow} {state : Candidate} {receipt : CommandRow}
    {row : VersionRow} (commit : Commit store store' schedule state receipt)
    (cursor : CurrentRow store' schedule row)
    (shown : view store' owner schedule.id = .ok result.schedule) :
    result.schedule.state = row.state := by
  obtain ⟨found, hs, hid, -, current, hcurrent, hstate, -⟩ := view_ok shown
  have hsame := store'.schedules.eq_of_key hs ((commit.schedules schedule).mpr (Or.inr rfl)) hid
  subst hsame
  rw [hstate, hcurrent.unique cursor]

/-- A command that commits made a validated content current. -/
theorem Commits.validated {command : Command} (ok : StoreOk zoneInfo store)
    (commits : Commits zoneInfo store owner result store' command) :
    store'.events = store.events ∧ ∃ candidate zone previous now tasks values report,
      result.schedule.state.content = candidate.content ∧
      requestedContent store command = some (owner, candidate.content) ∧
      Validated zoneInfo store owner candidate zone previous now tasks values report := by
  cases commits with
  | @create data _ now _ h committed =>
      rcases create_ok h with ⟨hreplayed, -⟩ | ⟨zone, tasks, values, report, created⟩
      · rw [committed] at hreplayed
        contradiction
      · have hstate := created.commit.answer (created.cursor ok) created.answer.2.2
        exact ⟨created.commit.events, data.toCandidate, zone, none, now, tasks, values, report,
          by rw [hstate]; rfl, rfl, created.valid⟩
  | @replace data _ now _ h committed =>
      rcases replace_ok h with ⟨hreplayed, -⟩ | ⟨schedule, current, tasks, values, report,
        replaced⟩
      · rw [committed] at hreplayed
        contradiction
      · have hid := replaced.addressed.schedule_id
        subst hid
        have hstate := replaced.commit.answer (replaced.cursor ok) replaced.answer.2.2
        exact ⟨replaced.commit.events, data.toCandidate, schedule.timezone, _, now, tasks, values,
          report, by rw [hstate]; rfl, rfl, replaced.valid⟩
  | @travel data direction _ now _ h committed =>
      rcases travel_ok h with ⟨hreplayed, -⟩ | ⟨schedule, current, goal, tasks, values, report,
        travelled⟩
      · rw [committed] at hreplayed
        contradiction
      · have addressed := travelled.addressed
        have hid := addressed.schedule_id
        have howner := addressed.schedule_user
        subst hid howner
        have hstate := travelled.commit.answer travelled.cursor travelled.answer.2.2
        obtain ⟨found, hfound, hschedule, -⟩ :=
          header_total addressed.schedule_mem addressed.current_mem addressed.current_revision
        refine ⟨travelled.commit.events, goal.state.toCandidate, schedule.timezone, _, now, tasks,
          values, report, by rw [hstate], ?_, travelled.valid⟩
        simp only [requestedContent, hfound, hschedule, travelled.neighbour, Option.map_some]

theorem step_commitsClear (store : Store) (command : Command) (ok : StoreOk zoneInfo store)
    (closes : RequestClosesStored store command) : CommitsClear zoneInfo store command := by
  intro owner result store' commits block hb event hevent howner
  obtain ⟨hevents, candidate, zone, previous, now, tasks, values, report, hcontent, hrequest,
    valid⟩ := commits.validated ok
  rw [hcontent] at hb
  rw [hevents] at hevent
  exact valid.clear (closes _ hrequest) block hb event hevent howner

end

/-- In a run whose schedule commands all close the time of the stored events, no
commit places a block over one. -/
theorem commits_clear_of_closed (zoneInfo : String → Zone) (commands : List Command)
    (closed : ∀ store command, Occurs (step zoneInfo) Store.empty commands store command →
      RequestClosesStored store command) :
    ∀ store command, Occurs (step zoneInfo) Store.empty commands store command →
      CommitsClear zoneInfo store command :=
  occurs_of_guarded (storeOk_empty zoneInfo) storeOk_step step_commitsClear closed

/-- An account with a task and a stored lecture, before anything is saved. -/
def lectureRun : List Command :=
  [.register 1 "student" "UTC" 0, .createTask 1 essayCreate 1 0,
    .createEvent 1 ⟨"lecture", lectureTime 600, lectureTime 630, by decide⟩ 20 0]

/-- The first save of the essay, with these events in the content. -/
def saveEssay (block : PlanBlock) (own : block.taskId = 1) (events : List FixedEvent)
    (few : events.length ≤ 100) : Command :=
  .createSchedule 1 ⟨essayCandidate block own events few, 10⟩ 7 (lectureTime 480) 0

theorem commits_clear_of_closed_lecture :
    CommitsClear (fun _ => Zone.utc) (reached (fun _ => Zone.utc) lectureRun)
        (saveEssay earlyEssay rfl [lecture] (by decide)) ∧
      ∃ store', perform (fun _ => Zone.utc) (reached (fun _ => Zone.utc) lectureRun)
        (saveEssay earlyEssay rfl [lecture] (by decide)) = .ok store' := by
  have stored : ∀ event ∈ (reached (fun _ => Zone.utc) lectureRun).events.rows,
      event.start = lectureTime 600 ∧ event.stop = lectureTime 630 := by
    decide +kernel
  have saved : okAnd (perform (fun _ => Zone.utc) (reached (fun _ => Zone.utc) lectureRun)
      (saveEssay earlyEssay rfl [lecture] (by decide))) (fun _ => true) = true := by
    decide +kernel
  obtain ⟨store', h, -⟩ := exists_of_okAnd saved
  refine ⟨commits_clear_of_closed (fun _ => Zone.utc)
    (lectureRun ++ [saveEssay earlyEssay rfl [lecture] (by decide)]) ?_ _ _
    ⟨lectureRun, [], rfl, rfl⟩, store', h⟩
  intro store command occurs
  simp only [lectureRun, List.cons_append, List.nil_append, occurs_cons, not_occurs_nil,
    or_false] at occurs
  rcases occurs with ⟨-, rfl⟩ | ⟨-, rfl⟩ | ⟨-, rfl⟩ | ⟨rfl, rfl⟩
  · nofun
  · nofun
  · nofun
  · intro request hrequest event hevent howner slot hslot t hopen hstart hstop
    cases hrequest
    obtain ⟨h₁, h₂⟩ := stored event hevent
    rw [h₁] at hstart
    rw [h₂] at hstop
    exact ⟨lecture, List.mem_singleton_self _, hstart, hstop⟩

/-- The save accepts the essay over the stored lecture when the request does not
repeat it. -/
theorem commits_clear_lecture_overlap :
    ∃ store command, Occurs (step fun _ => Zone.utc) Store.empty
        (lectureRun ++ [saveEssay lateEssay rfl [] (by decide)]) store command ∧
      ¬ CommitsClear (fun _ => Zone.utc) store command := by
  refine ⟨reached (fun _ => Zone.utc) lectureRun, _, ⟨lectureRun, [], rfl, rfl⟩, fun clear => ?_⟩
  have saved : okAnd (create (fun _ => Zone.utc) (reached (fun _ => Zone.utc) lectureRun) 1
      ⟨essayCandidate lateEssay rfl [] (by decide), 10⟩ 7 (lectureTime 480) 0) (fun answer =>
        !answer.1.replayed && answer.1.schedule.state.content.blocks.any fun block =>
          answer.2.events.rows.any fun event => decide (event.userId = 1) &&
            decide (event.start < block.stop) && decide (block.start < event.stop)) = true := by
    decide +kernel
  obtain ⟨⟨result, store'⟩, h, htrue⟩ := exists_of_okAnd saved
  simp only [Bool.and_eq_true, Bool.not_eq_true', List.any_eq_true, decide_eq_true_eq] at htrue
  obtain ⟨committed, block, hb, event, hevent, ⟨howner, hbefore⟩, hafter⟩ := htrue
  have hclear := clear 1 result store' (.create h committed) block hb event hevent howner
  unfold FixedEventRow.Clear at hclear
  omega

end SmartPlanner
