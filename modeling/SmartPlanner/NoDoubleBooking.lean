import SmartPlanner.StoreReached

/-!
No double booking: across all saved schedules of an owner nothing in force
overlaps, and the allocation table lists exactly what is placed.
-/

namespace SmartPlanner

open Histories Outcome Tables ScheduleRepository

/-- The layout in force of a schedule. -/
def currentContent? (store : Store) (schedule : ScheduleRow) : Option ScheduleContent :=
  (store.versions.find? (schedule.id, schedule.currentRevision)).map (·.state.content)

/-- The blocks and fixed events in force, over all schedules of an owner. -/
def itemsInForce (store : Store) (owner : UUID) : List TimeWindow :=
  (store.schedules.select (·.userId = owner)).flatMap fun schedule =>
    ((currentContent? store schedule).map ScheduleContent.items).getD []

structure NoDoubleBooking (store : Store) : Prop where
  readable : ∀ schedule ∈ store.schedules, (currentContent? store schedule).isSome
  horizonsApart : ∀ a ∈ store.schedules, ∀ b ∈ store.schedules, a.userId = b.userId →
    a ≠ b → a.horizon.Apart b.horizon
  allocated : ∀ schedule ∈ store.schedules, ∀ content ∈ currentContent? store schedule,
    ∀ taskId, (∃ row ∈ store.allocations, row.scheduleId = schedule.id ∧ row.taskId = taskId) ↔
      ∃ block ∈ content.blocks, block.taskId = taskId
  allocationsOwned : ∀ row ∈ store.allocations, ∃ schedule ∈ store.schedules,
    schedule.id = row.scheduleId ∧ schedule.userId = row.userId
  exclusive : ∀ a ∈ store.schedules, ∀ b ∈ store.schedules,
    ∀ left ∈ currentContent? store a, ∀ right ∈ currentContent? store b,
    (∃ x ∈ left.blocks, ∃ y ∈ right.blocks, x.taskId = y.taskId) → a = b
  inside : ∀ schedule ∈ store.schedules, ∀ content ∈ currentContent? store schedule,
    ∀ item ∈ content.items, schedule.horizon.start ≤ item.start ∧ item.stop ≤ schedule.horizon.stop
  apart : ∀ owner, (itemsInForce store owner).Pairwise TimeWindow.Apart

theorem currentContent_eq {store : Store} {schedule : ScheduleRow} {content : ScheduleContent} :
    currentContent? store schedule = some content ↔
      ∃ row, CurrentRow store schedule row ∧ row.state.content = content := by
  unfold currentContent? CurrentRow
  simp only [Option.map_eq_some_iff, Table.find?_eq_some, Prod.mk.injEq, mem_historyRows]
  constructor
  · rintro ⟨row, ⟨hmem, hid, hrevision⟩, rfl⟩
    exact ⟨row, ⟨⟨hmem, hid⟩, hrevision⟩, rfl⟩
  · rintro ⟨row, ⟨⟨hmem, hid⟩, hrevision⟩, rfl⟩
    exact ⟨row, ⟨hmem, hid, hrevision⟩, rfl⟩

/-- Items inside windows that are apart are apart. -/
theorem TimeWindow.Apart.of_inside {a b x y : TimeWindow} (h : a.Apart b)
    (hx : a.start ≤ x.start ∧ x.stop ≤ a.stop) (hy : b.start ≤ y.start ∧ y.stop ≤ b.stop) :
    x.Apart y := by
  unfold TimeWindow.Apart at h ⊢
  omega

section
variable {zoneInfo : String → Zone} {store : Store} (ok : StoreOk zoneInfo store)
include ok

theorem StoreOk.entry {schedule : ScheduleRow} (hs : schedule ∈ store.schedules)
    {row : VersionRow} (hrow : CurrentRow store schedule row) :
    EntryOk zoneInfo store schedule row :=
  (ok.schedules schedule hs).entries row hrow.1

theorem StoreOk.items_inside {schedule : ScheduleRow} (hs : schedule ∈ store.schedules)
    {content : ScheduleContent} (hc : currentContent? store schedule = some content) :
    ∀ item ∈ content.items,
      schedule.horizon.start ≤ item.start ∧ item.stop ≤ schedule.horizon.stop := by
  obtain ⟨row, hrow, rfl⟩ := currentContent_eq.mp hc
  have entry := ok.entry hs hrow
  rw [entry.horizonStart, entry.horizonStop]
  exact entry.sound.inside

/-- A placed task is a task of the owner of its schedule. -/
theorem StoreOk.block_owner {schedule : ScheduleRow} (hs : schedule ∈ store.schedules)
    {row : VersionRow} (hrow : CurrentRow store schedule row) {block : PlanBlock}
    (hb : block ∈ row.state.content.blocks) :
    ∃ task ∈ store.tasks, task.id = block.taskId ∧ task.userId = schedule.userId := by
  have hselected := row.state.content.blocksValid.2 block hb
  obtain ⟨entry, hentry, hid⟩ :=
    List.mem_map.mp ((row.state.toCandidate.selected_iff block.taskId).mpr hselected)
  obtain ⟨task, htask, howner, hsame, -⟩ := (ok.entry hs hrow).known.tasks entry hentry
  exact ⟨task, htask, hsame.trans hid, howner⟩

theorem StoreOk.noDoubleBooking : NoDoubleBooking store := by
  refine ⟨fun schedule hs => ?_, fun a ha b hb howner hne => ?_,
    fun schedule hs content hc taskId => ?_, ok.allocationsOwned, ?_,
    fun schedule hs content hc => ok.items_inside hs hc, fun owner => ?_⟩
  · obtain ⟨row, hrow⟩ := (ok.schedules schedule hs).cursor
    rw [currentContent_eq.mpr ⟨row, hrow, rfl⟩]
    rfl
  · refine ok.apart a ha b hb howner fun hid => hne ?_
    exact store.schedules.eq_of_key ha hb hid
  · obtain ⟨row, hrow, rfl⟩ := currentContent_eq.mp hc
    rw [← ok.allocated schedule hs row hrow taskId]
    constructor
    · rintro ⟨allocation, hmem, hid, rfl⟩
      obtain ⟨other, hother, hsame, howner⟩ := ok.allocationsOwned allocation hmem
      have hrow' := store.schedules.eq_of_key hother hs (hsame.trans hid)
      rw [hrow'] at howner
      rw [howner, ← hid]
      exact hmem
    · exact fun hmem => ⟨_, hmem, rfl, rfl⟩
  · rintro a ha b hb left hleft right hright ⟨x, hx, y, hy, hxy⟩
    obtain ⟨rowA, hrowA, rfl⟩ := currentContent_eq.mp hleft
    obtain ⟨rowB, hrowB, rfl⟩ := currentContent_eq.mp hright
    obtain ⟨taskA, htaskA, hidA, hownerA⟩ := ok.block_owner ha hrowA hx
    obtain ⟨taskB, htaskB, hidB, hownerB⟩ := ok.block_owner hb hrowB hy
    have htask := store.tasks.eq_of_key htaskA htaskB (hidA.trans (hxy.trans hidB.symm))
    have howner : a.userId = b.userId := by rw [← hownerA, ← hownerB, htask]
    have hA := (ok.allocated a ha rowA hrowA x.taskId).mpr ⟨x, hx, rfl⟩
    have hB := (ok.allocated b hb rowB hrowB x.taskId).mpr ⟨y, hy, hxy.symm⟩
    have hrow := store.allocations.eq_of_key hA hB (by simp [howner])
    exact store.schedules.eq_of_key ha hb (congrArg AllocationRow.scheduleId hrow)
  · unfold itemsInForce
    rw [List.pairwise_flatMap]
    refine ⟨fun schedule hs => ?_, ?_⟩
    · obtain ⟨hmem, -⟩ := Table.mem_select.mp hs
      obtain ⟨row, hrow⟩ := (ok.schedules schedule hmem).cursor
      rw [currentContent_eq.mpr ⟨row, hrow, rfl⟩]
      exact (ok.entry hmem hrow).sound.apart
    · have distinct := store.schedules.select_distinct (·.userId = owner)
      rw [List.Nodup, List.pairwise_map] at distinct
      refine distinct.imp_of_mem fun {a b} ha hb hne x hx y hy => ?_
      obtain ⟨ha, hownerA⟩ := Table.mem_select.mp ha
      obtain ⟨hb, hownerB⟩ := Table.mem_select.mp hb
      simp only [decide_eq_true_eq] at hownerA hownerB
      obtain ⟨rowA, hrowA⟩ := (ok.schedules a ha).cursor
      obtain ⟨rowB, hrowB⟩ := (ok.schedules b hb).cursor
      have hcA := currentContent_eq.mpr ⟨rowA, hrowA, rfl⟩
      have hcB := currentContent_eq.mpr ⟨rowB, hrowB, rfl⟩
      rw [hcA] at hx
      rw [hcB] at hy
      exact (ok.apart a ha b hb (hownerA.trans hownerB.symm) hne).of_inside
        (ok.items_inside ha hcA x hx) (ok.items_inside hb hcB y hy)

end

/-- Whatever commands were sent, nothing is booked twice. -/
theorem reached_noDoubleBooking (zoneInfo : String → Zone) (commands : List Command) :
    NoDoubleBooking (reached zoneInfo commands) :=
  (storeOk_reached zoneInfo commands).noDoubleBooking

end SmartPlanner
