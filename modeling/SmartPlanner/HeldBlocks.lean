import SmartPlanner.FreshView

/-!
The blocks that the placement rules hold where they are: locked or started, of
tasks that are still open. Any accepted replacement places them so that they
suit the present tasks, and on their own they make up an acceptable layout as
soon as they do.
-/

namespace SmartPlanner

open Histories Outcome Sorting Tables ScheduleRepository

/-- The blocks of a task that stay where they are as long as it is open. -/
def heldBlocks (blocks : List PlanBlock) (now : Int) (taskId : UUID) : List PlanBlock :=
  (blocksOf blocks taskId).filter fun block => block.locked || decide (block.start < now)

/-- The blocks agree with the duration, the splitting and the window of a task. -/
structure Suits (task : TaskRecord) (blocks : List PlanBlock) : Prop where
  share : ShareOk task blocks
  afterEarliest : ∀ block ∈ blocks, ∀ earliest ∈ task.earliestStart, earliest ≤ block.start
  beforeDeadline : ∀ block ∈ blocks, ∀ deadline ∈ task.deadline, block.stop ≤ deadline

/-- Every open task suits the blocks that are held for it. -/
def HeldSuit (store : Store) (owner : UUID) (content : ScheduleContent) (now : Int) : Prop :=
  ∀ taskId task, Repository.getTask store owner taskId = .ok task → task.status = .pending →
    Suits task (heldBlocks content.blocks now taskId)

theorem mem_heldBlocks {blocks : List PlanBlock} {now : Int} {taskId : UUID} {block : PlanBlock} :
    block ∈ heldBlocks blocks now taskId ↔
      block ∈ blocks ∧ block.taskId = taskId ∧ (block.locked = true ∨ block.start < now) := by
  simp [heldBlocks, mem_blocksOf, and_assoc]

/-! The held blocks of an accepted replacement. -/

/-- Blocks that are apart have different keys. -/
theorem PairwiseApart.keys_nodup {blocks : List PlanBlock} (h : PairwiseApart blocks) :
    (blocks.map blockKey).Nodup := by
  rw [List.Nodup, List.pairwise_map]
  refine h.imp fun {a b} hab hkey => ?_
  simp only [blockKey, Prod.mk.injEq] at hkey
  have hpos := b.windowValid.2.2
  unfold TimeWindow.Apart at hab
  omega

/-- Minutes and counts can be read off the keys. -/
theorem ShareOk.of_keys {task : TaskRecord} {xs ys : List PlanBlock}
    (perm : (xs.map blockKey).Perm (ys.map blockKey)) (h : ShareOk task xs) : ShareOk task ys := by
  have minutes : ∀ blocks : List PlanBlock, minutesOf blocks =
      ((blocks.map blockKey).map fun key => truncMinutes (key.2.2 - key.2.1)).sum := by
    intro blocks
    rw [List.map_map]
    rfl
  have hminutes : minutesOf xs = minutesOf ys := by
    rw [minutes, minutes]
    exact (perm.map _).sum_eq
  have hlength : xs.length = ys.length := by simpa using perm.length_eq
  unfold ShareOk at h ⊢
  rw [hminutes, hlength] at h
  refine ⟨h.1, fun hs hne => h.2 hs ?_⟩
  rintro rfl
  exact hne (List.eq_nil_of_length_eq_zero hlength.symm)

/-- Placements that occur among the suitable blocks of a task suit it too. -/
theorem Suits.of_kept {task : TaskRecord} {held own : List PlanBlock} (suits : Suits task own)
    (heldKeys : (held.map blockKey).Nodup) (ownKeys : (own.map blockKey).Nodup)
    (kept : ∀ block ∈ held, blockKey block ∈ own.map blockKey) : Suits task held := by
  have same : ∀ block ∈ held, ∃ other ∈ own, other.start = block.start ∧
      other.stop = block.stop := by
    intro block hb
    obtain ⟨other, hother, hkey⟩ := List.mem_map.mp (kept block hb)
    simp only [blockKey, Prod.mk.injEq] at hkey
    exact ⟨other, hother, hkey.2.1, hkey.2.2⟩
  have part := suits.share.sublist
    (@List.filter_sublist _ (fun block => decide (blockKey block ∈ held.map blockKey)) own)
  refine ⟨part.of_keys ?_, fun block hb earliest he => ?_, fun block hb deadline hd => ?_⟩
  · refine (List.perm_ext_iff_of_nodup (ownKeys.sublist (List.filter_sublist.map _))
      heldKeys).mpr fun key => ?_
    simp only [List.mem_map, List.mem_filter, decide_eq_true_eq]
    constructor
    · rintro ⟨block, ⟨-, other, hother, hkey⟩, rfl⟩
      exact ⟨other, hother, hkey⟩
    · rintro ⟨block, hb, rfl⟩
      obtain ⟨other, hother, hkey⟩ := List.mem_map.mp (kept block hb)
      exact ⟨other, ⟨hother, block, hb, hkey.symm⟩, hkey⟩
  · obtain ⟨other, hother, hstart, -⟩ := same block hb
    rw [← hstart]
    exact suits.afterEarliest other hother earliest he
  · obtain ⟨other, hother, -, hstop⟩ := same block hb
    rw [← hstop]
    exact suits.beforeDeadline other hother deadline hd

/-- The blocks of a pending task in an acceptable layout suit it. -/
theorem LayoutOk.suits {zone : Zone} {window : PlanningWindow} {blocks : List PlanBlock}
    {tasks : List TaskRecord} (layout : LayoutOk zone window blocks tasks) {task : TaskRecord}
    (ht : task ∈ tasks) (hpending : task.status = .pending) :
    Suits task (blocksOf blocks task.id) where
  share := layout.share task ht hpending
  afterEarliest block hb := (layout.allowed task ht hpending block hb).afterEarliest
  beforeDeadline block hb := (layout.allowed task ht hpending block hb).beforeDeadline

theorem Validated.heldSuit {zoneInfo : String → Zone} {store : Store} {owner : UUID}
    {candidate previous : Candidate} {zone : String} {now : Int} {tasks : List TaskRecord}
    {values : PreferenceValues} {report : LayoutReport}
    (valid : Validated zoneInfo store owner candidate zone (some previous) now tasks values report)
    (apart : PairwiseApart previous.content.blocks) :
    HeldSuit store owner previous.content now := by
  intro taskId task hread hpending
  obtain ⟨row, hrow, hid, howner, hlive, hcolumns⟩ := Repository.getTask_ok.mp hread
  obtain ⟨layout, -⟩ := inspectLayout_report valid.inspected
  have hopen : OpenRow row := ⟨hlive, by rw [hcolumns]; exact hpending⟩
  have kept : ∀ block ∈ heldBlocks previous.content.blocks now taskId,
      blockKey block ∈ candidate.content.blocks.map blockKey := by
    intro block hb
    obtain ⟨hmem, hblock, hheld⟩ := mem_heldBlocks.mp hb
    by_contra hmoved
    obtain ⟨hunlocked, hfuture⟩ := valid.placements.kept block hmem row
      (liveRow_liveRows.mpr ⟨hrow, howner, hid.trans hblock.symm, Or.inr ⟨previous, rfl,
        previous.content.blocksValid.2 block hmem⟩⟩) hopen hmoved
    rcases hheld with hlocked | hstarted
    · rw [hunlocked] at hlocked
      contradiction
    · omega
  by_cases hnone : heldBlocks previous.content.blocks now taskId = []
  · rw [hnone]
    exact ⟨shareOk_nil task, by simp, by simp⟩
  · obtain ⟨first, hfirst⟩ := List.exists_mem_of_ne_nil _ hnone
    obtain ⟨other, hother, hkey⟩ := List.mem_map.mp (kept first hfirst)
    simp only [blockKey, Prod.mk.injEq] at hkey
    obtain ⟨found, hfound, -, hsame⟩ := layout.pending other hother
    obtain ⟨row', hrow', -, -, hcolumns'⟩ := valid.current.records.stored found hfound
    have hrows : row = row' := store.tasks.eq_of_key hrow hrow' (by
      rw [hid, hcolumns', ← hsame, hkey.1, (mem_heldBlocks.mp hfirst).2.1])
    have htask : found = task :=
      TaskRecord.eq_of_columns (by rw [← hcolumns', ← hrows, hcolumns])
    subst htask
    have hidTask : found.id = taskId := by rw [← hid, hcolumns]
    subst hidTask
    refine (layout.suits hfound hpending).of_kept ?_ ?_ fun block hb => ?_
    · exact apart.keys_nodup.sublist
        ((List.filter_sublist.trans List.filter_sublist).map blockKey)
    · exact layout.apart.keys_nodup.sublist (List.filter_sublist.map blockKey)
    · obtain ⟨kin, hkin, hkinKey⟩ := List.mem_map.mp (kept block hb)
      refine List.mem_map.mpr ⟨kin, mem_blocksOf.mpr ⟨hkin, ?_⟩, hkinKey⟩
      simp only [blockKey, Prod.mk.injEq] at hkinKey
      exact hkinKey.1.trans (mem_heldBlocks.mp hb).2.1

theorem ContentSound.blocksApart {zone : Zone} {content : ScheduleContent}
    (sound : ContentSound zone content) : PairwiseApart content.blocks :=
  List.pairwise_map.mp (List.pairwise_append.mp sound.apart).1

/-! A replacement that keeps the held blocks and nothing else. -/

/-- The task can be read and is pending. -/
def openTask (store : Store) (owner taskId : UUID) : Bool :=
  okAnd (Repository.getTask store owner taskId) fun task => task.status = .pending

theorem openTask_iff {store : Store} {owner taskId : UUID} :
    openTask store owner taskId = true ↔
      ∃ task, Repository.getTask store owner taskId = .ok task ∧ task.status = .pending := by
  unfold openTask okAnd
  split <;> simp_all

/-- The held blocks of the open tasks, with the whole horizon offered to them. -/
def ScheduleContent.heldOnly (content : ScheduleContent) (store : Store) (owner : UUID)
    (horizon : TimeWindow) (now : Int) : ScheduleContent where
  startDate := content.startDate
  days := content.days
  taskIds := content.taskIds.filter (openTask store owner)
  availability := [horizon]
  fixedEvents := []
  planningValid := by
    obtain ⟨hdate, hdays, hdistinct, hcount, -, -⟩ := content.planningValid
    exact ⟨hdate, hdays, hdistinct.sublist List.filter_sublist,
      (List.length_filter_le _ _).trans hcount, by simp, by simp⟩
  blocks := content.blocks.filter fun block =>
    openTask store owner block.taskId && (block.locked || decide (block.start < now))
  blocksValid := by
    obtain ⟨hcount, hselected⟩ := content.blocksValid
    refine ⟨(List.length_filter_le _ _).trans hcount, fun block hb => ?_⟩
    rw [List.mem_filter, Bool.and_eq_true] at hb
    exact List.mem_filter.mpr ⟨hselected block hb.1, hb.2.1⟩

section
variable {store : Store} {owner : UUID} {content : ScheduleContent} {horizon : TimeWindow}
  {now : Int} {tasks : List TaskRecord}

/-- The records of the kept selection are the open tasks the client reads. -/
theorem RecordsOf.heldOnly_open
    (records : RecordsOf store owner (content.heldOnly store owner horizon now).taskIds tasks)
    {task : TaskRecord} (ht : task ∈ tasks) :
    Repository.getTask store owner task.id = .ok task ∧ task.status = .pending ∧
      openTask store owner task.id = true := by
  obtain ⟨row, hrow, howner, hlive, hcolumns⟩ := records.stored task ht
  have hread : Repository.getTask store owner task.id = .ok task :=
    Repository.getTask_ok.mpr ⟨row, hrow, by rw [hcolumns], howner, hlive, hcolumns⟩
  have hselected : task.id ∈ content.taskIds.filter (openTask store owner) := by
    have hin := List.mem_map_of_mem (f := (·.id)) ht
    rwa [records.ids_eq] at hin
  have hopen := (List.mem_filter.mp hselected).2
  obtain ⟨other, hother, hpending⟩ := openTask_iff.mp hopen
  rw [hread] at hother
  cases hother
  exact ⟨hread, hpending, hopen⟩

theorem blocksOf_heldOnly {taskId : UUID} (hopen : openTask store owner taskId = true) :
    blocksOf (content.heldOnly store owner horizon now).blocks taskId =
      heldBlocks content.blocks now taskId := by
  unfold ScheduleContent.heldOnly heldBlocks blocksOf
  rw [List.filter_filter, List.filter_filter]
  refine List.filter_congr fun block _ => ?_
  by_cases hid : block.taskId = taskId
  · simp [hid, hopen]
  · simp [hid]

theorem heldOnly_layoutOk {zone : Zone} (sound : ContentSound zone content)
    (first : horizon.start = content.horizonStart zone)
    (last : horizon.stop = content.horizonStop zone)
    (records : RecordsOf store owner (content.heldOnly store owner horizon now).taskIds tasks)
    (suit : HeldSuit store owner content now) :
    LayoutOk zone (content.heldOnly store owner horizon now).toPlanningWindow
      (content.heldOnly store owner horizon now).blocks tasks := by
  have inside : ∀ block ∈ content.blocks,
      content.horizonStart zone ≤ block.start ∧ block.stop ≤ content.horizonStop zone :=
    fun block hb => sound.inside _ (List.mem_append_left _ (List.mem_map_of_mem hb))
  have suits : ∀ task ∈ tasks,
      Suits task (blocksOf (content.heldOnly store owner horizon now).blocks task.id) := by
    intro task ht
    obtain ⟨hread, hpending, hopen⟩ := records.heldOnly_open ht
    rw [blocksOf_heldOnly hopen]
    exact suit task.id task hread hpending
  have ids := records.ids_eq
  refine ⟨⟨sound.horizonOk, ?_, ⟨_, rfl⟩⟩, sound.representable, ⟨?_, ?_, ?_⟩, ?_, ?_, ?_, ?_, ?_⟩
  · intro slot hslot
    rw [List.mem_singleton.mp hslot]
    exact ⟨first.ge, last.le⟩
  · rw [ids]
    exact (content.heldOnly store owner horizon now).planningValid.2.2.1
  · intro task ht
    rw [← ids]
    exact List.mem_map_of_mem ht
  · intro id hid
    rwa [ids]
  · exact (content.heldOnly store owner horizon now).blocksValid.1
  · intro block hb
    have hselected := (content.heldOnly store owner horizon now).blocksValid.2 block hb
    rw [← ids] at hselected
    obtain ⟨task, ht, hid⟩ := List.mem_map.mp hselected
    exact ⟨task, ht, (records.heldOnly_open ht).2.1, hid.symm⟩
  · exact fun task ht _ => (suits task ht).share
  · intro task ht _ block hb
    obtain ⟨hmem, -⟩ := mem_blocksOf.mp hb
    obtain ⟨hstart, hstop⟩ := inside block (List.mem_of_mem_filter hmem)
    refine ⟨⟨hstart, hstop⟩, hstart, (suits task ht).afterEarliest block hb,
      (suits task ht).beforeDeadline block hb, fun t hin => ⟨horizon, ?_, ?_⟩, by
        simp [ScheduleContent.heldOnly]⟩
    · exact List.mem_singleton_self _
    · unfold TimeWindow.Contains at hin ⊢
      omega
  · exact sound.blocksApart.sublist List.filter_sublist

theorem heldOnly_placements {live : List TaskRow}
    (rows : ∀ taskId row, liveRow live taskId = some row → OpenRow row →
      openTask store owner taskId = true) :
    PlacementsKept content.blocks (content.heldOnly store owner horizon now).blocks live now := by
  refine ⟨fun block hb row hrow hopen hmoved => ?_, fun block hb _ => ?_⟩
  · by_contra hheld
    refine hmoved (List.mem_map_of_mem (List.mem_filter.mpr ⟨hb, ?_⟩))
    rw [not_and_or, Bool.not_eq_false, not_le] at hheld
    simpa [rows block.taskId row hrow hopen] using hheld
  · exact List.mem_map_of_mem (List.mem_of_mem_filter hb)

end

end SmartPlanner
