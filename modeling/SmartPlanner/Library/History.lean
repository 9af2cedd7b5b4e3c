import SmartPlanner.Library.Sorting
import Mathlib.Data.List.Chain
import Mathlib.Tactic.Tauto

/-!
A bounded undo/redo history: a list of states with a cursor. `Zipper.cursorAt` reads
the zipper off a list in key order; the operations move the cursor or append
after it, dropping the oldest states beyond a limit.
-/

namespace Histories

universe u v
variable {α : Type u}

structure Zipper (α : Type u) where
  past : List α
  current : α
  future : List α
deriving DecidableEq

/-- The last items of a list, at most `limit` of them. -/
def newest (limit : Nat) (xs : List α) : List α := xs.drop (xs.length - limit)

theorem length_newest_le (limit : Nat) (xs : List α) : (newest limit xs).length ≤ limit := by
  unfold newest
  rw [List.length_drop]
  omega

theorem newest_suffix (limit : Nat) (xs : List α) : newest limit xs <:+ xs :=
  List.drop_suffix _ _

theorem mem_of_mem_newest {limit : Nat} {xs : List α} {a : α} (h : a ∈ newest limit xs) :
    a ∈ xs :=
  (newest_suffix limit xs).subset h

/-- The newest items of a list with a new end are that end and the newest before
it. -/
theorem newest_append_singleton {limit : Nat} (xs : List α) (a : α) :
    newest (limit + 1) (xs ++ [a]) = newest limit xs ++ [a] := by
  unfold newest
  rw [List.length_append, List.length_singleton, Nat.add_sub_add_right,
    List.drop_append_of_le_length (Nat.sub_le _ _)]

namespace Zipper

def toList (z : Zipper α) : List α := z.past ++ z.current :: z.future

/-- A new state after the current one; the future is lost. -/
def push (limit : Nat) (z : Zipper α) (next : α) : Zipper α :=
  ⟨newest (limit - 1) (z.past ++ [z.current]), next, []⟩

def undo (z : Zipper α) : Option (Zipper α) :=
  z.past.getLast?.map fun last => ⟨z.past.dropLast, last, z.current :: z.future⟩

def redo (z : Zipper α) : Option (Zipper α) :=
  match z.future with
  | [] => none
  | next :: future => some ⟨z.past ++ [z.current], next, future⟩

/-- The operations of a bounded history. -/
inductive Step (limit : Nat) (z : Zipper α) : Zipper α → Prop
  | push (next : α) : Step limit z (z.push limit next)
  | undo {z' : Zipper α} (h : z.undo = some z') : Step limit z z'
  | redo {z' : Zipper α} (h : z.redo = some z') : Step limit z z'

theorem toList_push {limit : Nat} (pos : 0 < limit) (z : Zipper α) (next : α) :
    (z.push limit next).toList = newest limit (z.past ++ [z.current] ++ [next]) := by
  obtain ⟨limit, rfl⟩ : ∃ k, limit = k + 1 := ⟨limit - 1, by omega⟩
  rw [newest_append_singleton]
  simp [push, toList]

theorem length_push {limit : Nat} (pos : 0 < limit) (z : Zipper α) (next : α) :
    (z.push limit next).toList.length ≤ limit := by
  rw [toList_push pos]
  exact length_newest_le _ _

theorem undo_eq_none {z : Zipper α} : z.undo = none ↔ z.past = [] := by
  simp [undo]

theorem redo_eq_none {z : Zipper α} : z.redo = none ↔ z.future = [] := by
  unfold redo
  split <;> simp_all

theorem undo_eq_some {z z' : Zipper α} :
    z.undo = some z' ↔ z.past = z'.past ++ [z'.current] ∧ z'.future = z.current :: z.future := by
  unfold undo
  rw [Option.map_eq_some_iff]
  constructor
  · rintro ⟨last, hlast, rfl⟩
    exact ⟨(List.dropLast_append_getLast? last hlast).symm, rfl⟩
  · rintro ⟨hpast, hfuture⟩
    refine ⟨z'.current, by simp [hpast], ?_⟩
    rw [hpast, List.dropLast_concat, ← hfuture]

theorem redo_eq_some {z z' : Zipper α} :
    z.redo = some z' ↔ z.future = z'.current :: z'.future ∧ z'.past = z.past ++ [z.current] := by
  unfold redo
  cases z with
  | mk past current future =>
      cases z' with
      | mk past' current' future' =>
          cases future with
          | nil => simp
          | cons next rest =>
              simp only [Option.some.injEq, mk.injEq, List.cons.injEq]
              constructor
              · rintro ⟨rfl, rfl, rfl⟩
                exact ⟨⟨rfl, rfl⟩, rfl⟩
              · rintro ⟨⟨rfl, rfl⟩, rfl⟩
                exact ⟨rfl, rfl, rfl⟩

/-- Moving the cursor leaves the states in place. -/
theorem undo_toList {z z' : Zipper α} (h : z.undo = some z') : z'.toList = z.toList := by
  obtain ⟨hpast, hfuture⟩ := undo_eq_some.mp h
  simp [toList, hpast, hfuture]

theorem redo_toList {z z' : Zipper α} (h : z.redo = some z') : z'.toList = z.toList := by
  obtain ⟨hfuture, hpast⟩ := redo_eq_some.mp h
  simp [toList, hpast, hfuture]

theorem redo_of_undo {z z' : Zipper α} (h : z.undo = some z') : z'.redo = some z := by
  obtain ⟨hpast, hfuture⟩ := undo_eq_some.mp h
  exact redo_eq_some.mpr ⟨hfuture, hpast⟩

theorem mem_push {limit : Nat} {z : Zipper α} {next a : α} (pos : 0 < limit)
    (h : a ∈ (z.push limit next).toList) : a ∈ z.toList ∨ a = next := by
  rw [toList_push pos] at h
  have hmem := mem_of_mem_newest h
  simp only [List.mem_append, List.mem_singleton] at hmem
  unfold toList
  rw [List.mem_append, List.mem_cons]
  tauto

/-- A relation between neighbours survives a push that relates the new state to
the current one. -/
theorem push_isChain {R : α → α → Prop} {limit : Nat} {z : Zipper α} {next : α}
    (pos : 0 < limit) (chain : z.toList.IsChain R) (joined : R z.current next) :
    (z.push limit next).toList.IsChain R := by
  rw [toList_push pos]
  refine List.IsChain.suffix ?_ (newest_suffix limit _)
  have past : (z.past ++ [z.current]).IsChain R :=
    chain.prefix ⟨z.future, by simp [toList]⟩
  refine List.isChain_append.mpr ⟨past, .singleton next, ?_⟩
  simpa using joined

/-- An undo moves to the state the current one is related to. -/
theorem rel_of_undo {R : α → α → Prop} {z z' : Zipper α} (h : z.undo = some z')
    (chain : z.toList.IsChain R) : R z'.current z.current := by
  obtain ⟨hpast, -⟩ := undo_eq_some.mp h
  unfold toList at chain
  rw [hpast, List.append_assoc, List.singleton_append] at chain
  exact (List.isChain_append_cons_cons.mp chain).2.1

section
variable {κ : Type v} [LinearOrder κ] (key : α → κ)

/-- The zipper of a list in key order at one of its items. -/
def cursorAt (xs : List α) (current : α) : Zipper α :=
  ⟨xs.filter (key · < key current), current, xs.filter (key current < key ·)⟩

variable {key}

theorem cursorAt_eq {z : Zipper α} (increasing : z.toList.Pairwise (key · < key ·)) :
    Zipper.cursorAt key z.toList z.current = z := by
  obtain ⟨past, current, future⟩ := z
  unfold toList at increasing
  obtain ⟨-, hright, hcross⟩ := List.pairwise_append.mp increasing
  rw [List.pairwise_cons] at hright
  have hpast : ∀ a ∈ past, key a < key current := fun a ha => hcross a ha current (by simp)
  have hfuture : ∀ a ∈ future, key current < key a := hright.1
  have h₁ : past.filter (fun a => decide (key a < key current)) = past :=
    List.filter_eq_self.mpr (by simpa using hpast)
  have h₂ : future.filter (fun a => decide (key a < key current)) = [] :=
    List.filter_eq_nil_iff.mpr fun a ha => by simpa using (hfuture a ha).le
  have h₃ : past.filter (fun a => decide (key current < key a)) = [] :=
    List.filter_eq_nil_iff.mpr fun a ha => by simpa using (hpast a ha).le
  have h₄ : future.filter (fun a => decide (key current < key a)) = future :=
    List.filter_eq_self.mpr (by simpa using hfuture)
  simp [Zipper.cursorAt, toList, List.filter_append, h₁, h₂, h₃, h₄]

/-- Cutting the future leaves the past and the current state. -/
theorem filter_le_cursor {z : Zipper α} (increasing : z.toList.Pairwise (key · < key ·)) :
    z.toList.filter (key · ≤ key z.current) = z.past ++ [z.current] := by
  obtain ⟨past, current, future⟩ := z
  unfold toList at increasing
  obtain ⟨-, hright, hcross⟩ := List.pairwise_append.mp increasing
  rw [List.pairwise_cons] at hright
  have h₁ : past.filter (fun a => decide (key a ≤ key current)) = past :=
    List.filter_eq_self.mpr fun a ha => by simpa using (hcross a ha current (by simp)).le
  have h₂ : future.filter (fun a => decide (key a ≤ key current)) = [] :=
    List.filter_eq_nil_iff.mpr fun a ha => by simpa using hright.1 a ha
  simp [toList, List.filter_append, h₁, h₂]

theorem toList_cursorAt {xs : List α} {current : α} (increasing : xs.Pairwise (key · < key ·))
    (present : current ∈ xs) : (Zipper.cursorAt key xs current).toList = xs := by
  obtain ⟨past, future, rfl⟩ := List.append_of_mem present
  have h : Zipper.cursorAt key (past ++ current :: future) current = ⟨past, current, future⟩ :=
    @cursorAt_eq _ _ _ key ⟨past, current, future⟩ increasing
  rw [h]
  rfl

end

end Zipper

section
variable {κ : Type v} [DecidableEq κ] {key : α → κ}

/-- Keeping the items whose keys are among the newest keeps the newest. -/
theorem filter_newest {limit : Nat} {xs : List α} (distinct : (xs.map key).Nodup) :
    xs.filter (fun a => key a ∈ ((xs.reverse.take limit).map key)) = newest limit xs := by
  have hsplit := List.take_append_drop (xs.length - limit) xs
  have hkept : (xs.reverse.take limit).map key = ((newest limit xs).map key).reverse := by
    rw [List.take_reverse, newest, List.map_reverse]
  rw [hkept]
  simp only [List.mem_reverse]
  unfold newest
  conv_lhs => rw [← hsplit]
  rw [← hsplit, List.map_append, List.nodup_append] at distinct
  rw [List.filter_append, hsplit, List.filter_eq_nil_iff.mpr, List.nil_append,
    List.filter_eq_self.mpr]
  · intro a ha
    rw [decide_eq_true_eq]
    exact List.mem_map_of_mem ha
  · intro a ha hmem
    rw [decide_eq_true_eq] at hmem
    exact distinct.2.2 (key a) (List.mem_map_of_mem ha) (key a) hmem rfl

end

end Histories
