import SmartPlanner.System

/-!
The rows of `recurring_activities` over a run: a row stays under its keys, a
deleted row does not change, and only a create command adds one.
-/

namespace SmartPlanner

open Outcome Runs Tables

/-- A later state of a pattern: no writer changes what identifies it, and none
touches a deleted row. -/
structure RecurrenceRow.Follows (row row' : RecurrenceRow) : Prop where
  id : row'.id = row.id
  userId : row'.userId = row.userId
  clientRequestId : row'.clientRequestId = row.clientRequestId
  creationDigest : row'.creationDigest = row.creationDigest
  deleted : row.deletedAt ≠ none → row' = row

/-- `UNIQUE (user_id, client_request_id)`. -/
def RecurrenceKeys (store : Store) : Prop :=
  ∀ a ∈ store.recurrences, ∀ b ∈ store.recurrences, a.userId = b.userId →
    a.clientRequestId = b.clientRequestId → a = b

/-- What a create command checked and did. -/
structure RecurrenceInserted (store store' : Store) (row : RecurrenceRow) : Prop where
  request : ∀ other ∈ store.recurrences, other.userId = row.userId →
    other.clientRequestId ≠ row.clientRequestId
  rows : store'.recurrences.rows = store.recurrences.rows ++ [row]

def Command.createsRecurrence : Command → Bool
  | .createRecurrence .. => true
  | _ => false

/-- What an answered command did to the patterns. -/
inductive RecurrenceChange (store store' : Store) : Command → Prop
  | same {command : Command} (h : store'.recurrences = store.recurrences) :
      RecurrenceChange store store' command
  | created {owner id : UUID} {data : RecurrenceCreate} {stamp : Int} {row : RecurrenceRow}
      (inserted : RecurrenceInserted store store' row) (own : row.userId = owner) :
      RecurrenceChange store store' (.createRecurrence owner data id stamp)
  | edited {command : Command} {p : RecurrenceRow → Bool} {f : RecurrenceRow → RecurrenceRow}
      (keeps : ∀ row, (f row).id = row.id)
      (h : store'.recurrences = store.recurrences.update p f keeps)
      (own : ∀ row, p row = true → row.userId = command.owner)
      (follows : ∀ row ∈ store.recurrences, p row = true → row.Follows (f row)) :
      RecurrenceChange store store' command

theorem RecurrenceRow.Follows.refl (row : RecurrenceRow) : row.Follows row :=
  ⟨rfl, rfl, rfl, rfl, fun _ => rfl⟩

theorem RecurrenceInserted.mem {store store' : Store} {row : RecurrenceRow}
    (inserted : RecurrenceInserted store store' row) (other : RecurrenceRow) :
    other ∈ store'.recurrences ↔ other ∈ store.recurrences ∨ other = row := by
  rw [← Table.mem_rows, inserted.rows, List.mem_append, List.mem_singleton, Table.mem_rows]

theorem RecurrenceInserted.keys {store store' : Store} {row : RecurrenceRow}
    (inserted : RecurrenceInserted store store' row) (keys : RecurrenceKeys store) :
    RecurrenceKeys store' := by
  intro a ha b hb howner hrequest
  rcases (inserted.mem a).mp ha with ha | rfl <;> rcases (inserted.mem b).mp hb with hb | rfl
  · exact keys a ha b hb howner hrequest
  · exact absurd hrequest (inserted.request a ha howner)
  · exact absurd hrequest.symm (inserted.request b hb howner.symm)
  · rfl

namespace RecurrenceChange
variable {store store' : Store} {command : Command}

theorem follows (change : RecurrenceChange store store' command) :
    ∀ row ∈ store.recurrences, ∃ row' ∈ store'.recurrences, row.Follows row' := by
  intro row hrow
  cases change with
  | same h => exact ⟨row, h ▸ hrow, .refl row⟩
  | created inserted => exact ⟨row, (inserted.mem row).mpr (Or.inl hrow), .refl row⟩
  | @edited _ p f keeps h own follows =>
      rw [h]
      cases hp : p row with
      | false => exact ⟨row, Table.mem_update_of_neg hrow hp, .refl row⟩
      | true => exact ⟨f row, Table.mem_update_of_pos hrow hp, follows row hrow hp⟩

/-- Create commands aside, every row was there before. -/
theorem unasked (change : RecurrenceChange store store' command)
    (uncreated : command.createsRecurrence = false) :
    ∀ row' ∈ store'.recurrences, ∃ row ∈ store.recurrences, row.Follows row' := by
  intro row' hrow'
  cases change with
  | same h => exact ⟨row', h ▸ hrow', .refl row'⟩
  | created inserted => cases uncreated
  | edited keeps h own follows =>
      rw [h] at hrow'
      obtain ⟨row, hrow, rfl⟩ := Table.mem_update.mp hrow'
      refine ⟨row, hrow, ?_⟩
      split
      · next hp => exact follows row hrow hp
      · exact .refl row

theorem keys (change : RecurrenceChange store store' command) (keys : RecurrenceKeys store) :
    RecurrenceKeys store' := by
  cases change with
  | same h =>
      intro a ha b hb howner hrequest
      rw [h] at ha hb
      exact keys a ha b hb howner hrequest
  | created inserted => exact inserted.keys keys
  | @edited _ p f keeps h own follows =>
      have each : ∀ row ∈ store.recurrences, row.Follows (if p row then f row else row) := by
        intro row hrow
        split
        · next hp => exact follows row hrow hp
        · exact .refl row
      intro a ha b hb howner hrequest
      rw [h] at ha hb
      obtain ⟨a, hold, rfl⟩ := Table.mem_update.mp ha
      obtain ⟨b, hold', rfl⟩ := Table.mem_update.mp hb
      rw [(each a hold).userId, (each b hold').userId] at howner
      rw [(each a hold).clientRequestId, (each b hold').clientRequestId] at hrequest
      rw [keys a hold b hold' howner hrequest]

end RecurrenceChange

theorem recurrenceKeys_empty : RecurrenceKeys Store.empty :=
  fun row h => absurd h (Table.not_mem_empty row)

namespace RecurrenceRepository
variable {store store' : Store} {owner recurrenceId id : UUID} {stamp : Int}

theorem owned_iff {row : RecurrenceRow} :
    owned owner recurrenceId row = true ↔ row.id = recurrenceId ∧ row.userId = owner := by
  simp [owned]

/-- The row a successful read found is the only one of the pattern. -/
theorem get_live {series : RecurrenceRecord} (h : get store owner recurrenceId = .ok series) :
    ∀ row ∈ store.recurrences, owned owner recurrenceId row = true → row.deletedAt = none := by
  unfold get at h
  split at h
  · next found hfound =>
      intro row hrow howned
      have hguard := List.find?_some hfound
      simp only [Bool.and_eq_true, decide_eq_true_eq] at hguard
      rw [store.recurrences.eq_of_key hrow (List.mem_of_find?_eq_some hfound)
        ((owned_iff.mp howned).1.trans hguard.1.1.symm)]
      exact hguard.2
  · contradiction

theorem create_change {data : RecurrenceCreate} {answer : RecurrenceRecord × Bool}
    (h : create store owner data id stamp = .ok (answer, store')) :
    RecurrenceChange store store' (.createRecurrence owner data id stamp) := by
  unfold create at h
  split at h
  · next hfree _ =>
      simp only [bind_ok, pure_eq_ok, Except.ok.injEq, Prod.mk.injEq] at h
      obtain ⟨recurrences, hinsert, result, -, -, rfl⟩ := h
      refine .created ⟨fun other ho howner hrequest => ?_,
        (Table.insert?_eq_some (insertRow_ok.mp hinsert)).2⟩ rfl
      refine List.find?_eq_none.mp hfree other ho ?_
      simp only [Bool.and_eq_true, decide_eq_true_eq]
      exact ⟨howner, hrequest⟩
  · contradiction
  · simp only [raiseIf_bind_ok] at h
    simp only [bind_ok, pure_eq_ok, Except.ok.injEq, Prod.mk.injEq] at h
    obtain ⟨-, -, result, -, -, rfl⟩ := h
    exact .same rfl

theorem replace_change {data : RecurrenceReplace} {answer : RecurrenceRecord}
    (h : replace store owner recurrenceId data stamp = .ok (answer, store')) :
    RecurrenceChange store store' (.replaceRecurrence owner recurrenceId data stamp) := by
  unfold replace at h
  simp only [bind_ok] at h
  obtain ⟨current, hcurrent, -, -, h⟩ := h
  split at h
  · contradiction
  · simp only [bind_ok, pure_eq_ok, Except.ok.injEq, Prod.mk.injEq] at h
    obtain ⟨result, -, -, rfl⟩ := h
    refine .edited (by exact fun _ => rfl) rfl (fun row howned => (owned_iff.mp howned).2)
      fun row hrow howned => ⟨rfl, rfl, rfl, rfl, fun hdeleted => ?_⟩
    exact absurd (get_live hcurrent row hrow howned) hdeleted

theorem delete_change {expectedVersion : Nat}
    (h : delete store owner recurrenceId expectedVersion stamp = .ok store') :
    RecurrenceChange store store' (.deleteRecurrence owner recurrenceId expectedVersion stamp) := by
  unfold delete at h
  simp only [bind_ok, pure_eq_ok, Except.ok.injEq] at h
  obtain ⟨current, hcurrent, -, -, rfl⟩ := h
  refine .edited (by exact fun _ => rfl) rfl (fun row howned => (owned_iff.mp howned).2)
    fun row hrow howned => ⟨rfl, rfl, rfl, rfl, fun hdeleted => ?_⟩
  exact absurd (get_live hcurrent row hrow howned) hdeleted

end RecurrenceRepository

section
variable {zoneInfo : String → Zone}

theorem perform_recurrenceChange {store store' : Store} {command : Command}
    (h : perform zoneInfo store command = .ok store') : RecurrenceChange store store' command := by
  have writes := perform_writes h
  cases command with
  | deleteRecurrence => exact RecurrenceRepository.delete_change h
  | createRecurrence =>
      obtain ⟨answer, h⟩ := snd_map_ok h
      exact RecurrenceRepository.create_change h
  | replaceRecurrence =>
      obtain ⟨answer, h⟩ := snd_map_ok h
      exact RecurrenceRepository.replace_change h
  | _ => exact .same (writes.unwritten.2 Area.noConfusion)

theorem step_recurrenceChange (store : Store) (command : Command) :
    RecurrenceChange store (step zoneInfo store command) command := by
  unfold step
  split
  · next h => exact perform_recurrenceChange h
  · exact .same rfl

end

end SmartPlanner
