import Mathlib.Algebra.Order.Group.Basic
import Mathlib.Data.List.Induction
import Mathlib.Data.List.Count

/-!
Counting events in windows of one length. A window opens at the first event
that finds none open and closes one span later; at most `limit` events are let
through in a window. An interval of one span can meet two windows, and then
holds less than both let through.
-/

namespace FixedWindows

universe u
variable {T : Type u}

/-- How many events the window that opened at `start` holds. -/
def used [LinearOrder T] (start : T) (times : List T) : ℕ := times.countP fun time => start ≤ time

section
variable [AddCommGroup T] [LinearOrder T]

/-- What is left of a window at a later time. -/
def live (span : T) (start : Option T) (now : T) : Option T :=
  start.filter fun start => now < start + span

/-- When the last window opened. -/
def windowStart (span : T) (times : List T) : Option T :=
  times.foldl (fun start now => some ((live span start now).getD now)) none

/-- When the window that is open now opened. -/
def current (span : T) (times : List T) (now : T) : Option T :=
  live span (windowStart span times) now

/-- There is room in the window that is open now, or none is open. -/
def Admits (span : T) (limit : ℕ) (times : List T) (now : T) : Prop :=
  ∀ start ∈ current span times now, used start times < limit

instance decidableAdmits (span : T) (limit : ℕ) (times : List T) (now : T) :
    Decidable (Admits span limit times now) :=
  inferInstanceAs (Decidable (∀ start ∈ current span times now, used start times < limit))

/-- The events let through, of those asked for in order. -/
def permit (span : T) (limit : ℕ) (asked : List T) : List T :=
  asked.foldl (fun times now =>
    if Admits span limit times now then times ++ [now] else times) []

/-- Events in order, each let through when it came. -/
inductive Paced (span : T) (limit : ℕ) : List T → Prop
  | nil : Paced span limit []
  | snoc {times : List T} {now : T} : Paced span limit times → (∀ time ∈ times, time ≤ now) →
      Admits span limit times now → Paced span limit (times ++ [now])

variable {span start now : T} {limit : ℕ} {times asked : List T}

theorem live_eq_some {opened : Option T} :
    live span opened now = some start ↔ opened = some start ∧ now < start + span := by
  simp [live, Option.filter_eq_some_iff]

theorem live_eq_none {opened : Option T} :
    live span opened now = none ↔ ∀ start, opened = some start → start + span ≤ now := by
  cases opened with
  | none => simp [live]
  | some opened => simp [live, Option.filter_some]

theorem admits_of_none (h : current span times now = none) : Admits span limit times now := by
  simp [Admits, h]

theorem admits_of_some (h : current span times now = some start) :
    Admits span limit times now ↔ used start times < limit := by
  simp [Admits, h]

theorem current_eq_some :
    current span times now = some start ↔
      windowStart span times = some start ∧ now < start + span :=
  live_eq_some

@[simp] theorem windowStart_nil : windowStart span ([] : List T) = none := rfl

/-- An event joins the window that is open, or opens one. -/
theorem windowStart_snoc :
    windowStart span (times ++ [now]) = some ((current span times now).getD now) := by
  rw [windowStart, List.foldl_append]
  rfl

theorem permit_snoc : permit span limit (asked ++ [now]) =
    if Admits span limit (permit span limit asked) now then permit span limit asked ++ [now]
    else permit span limit asked := by
  rw [permit, List.foldl_append]
  rfl

end

section
variable [LinearOrder T] {start now : T} {times : List T}

theorem used_snoc : used start (times ++ [now]) =
    used start times + if start ≤ now then 1 else 0 := by
  simp [used, List.countP_append, List.countP_singleton]

theorem used_snoc_of_le (h : start ≤ now) : used start (times ++ [now]) = used start times + 1 := by
  rw [used_snoc, if_pos h]

/-- Nothing has happened since a later time. -/
theorem used_eq_zero (h : ∀ time ∈ times, time < start) : used start times = 0 := by
  rw [used, List.countP_eq_zero]
  intro time htime
  simpa using h time htime

/-- A condition that implies being later than some event misses that event. -/
theorem countP_lt_used {p : T → Bool} (h : start ∈ times)
    (later : ∀ time, p time = true → start < time) : times.countP p < used start times := by
  obtain ⟨before, after, rfl⟩ := List.append_of_mem h
  have missed : p start = false := by
    rw [← Bool.not_eq_true]
    exact fun hp => lt_irrefl start (later start hp)
  have mono : ∀ part : List T, part.countP p ≤ used start part := fun part =>
    List.countP_mono_left fun time _ hp => by simpa using le_of_lt (later time hp)
  have hbefore := mono before
  have hafter := mono after
  simp only [used, List.countP_append, List.countP_cons, missed, le_refl, decide_true, if_true,
    Bool.false_eq_true, if_false] at hbefore hafter ⊢
  omega

/-- The events of an interval, those of the window opened at `start` apart. -/
theorem countP_le_before_add_used {p : T → Bool} {low : T}
    (above : ∀ time ∈ times, p time = true → low < time) :
    times.countP p ≤
      (times.countP fun time => low < time ∧ time < start) + used start times := by
  induction times with
  | nil => simp [used]
  | cons time times ih =>
      rw [List.forall_mem_cons] at above
      have rest := ih above.2
      have first := above.1
      simp only [used, List.countP_cons] at rest ⊢
      by_cases hp : p time = true
      · rcases lt_or_ge time start with hlt | hge
        · simp only [hp, first hp, hlt, not_le_of_gt hlt, and_self, decide_true, decide_false,
            if_true, Bool.false_eq_true, if_false]
          omega
        · simp only [hp, hge, not_lt_of_ge hge, and_false, decide_true, decide_false,
            if_true, Bool.false_eq_true, if_false]
          omega
      · rw [if_neg hp]
        omega

end

section
variable [AddCommGroup T] [LinearOrder T] {span start now : T} {limit : ℕ} {times : List T}

theorem windowStart_eq_none : windowStart span times = none ↔ times = [] := by
  induction times using List.reverseRecOn with
  | nil => simp
  | append_singleton times now _ => simp [windowStart_snoc]

/-- The last window, with what an interval of one span that meets it can hold of
the window before. -/
structure LastWindow (span : T) (limit : ℕ) (times : List T) (start : T) : Prop where
  opened : start ∈ times
  closes : ∀ time ∈ times, time < start + span
  full : used start times ≤ limit
  before : (times.countP fun time => start - span < time ∧ time < start) < limit

/-- One more event in the open window. -/
theorem LastWindow.joined (h : LastWindow span limit times start)
    (late : ∀ time ∈ times, time ≤ now) (open_ : now < start + span)
    (room : used start times < limit) :
    LastWindow span limit (times ++ [now]) start where
  opened := List.mem_append_left _ h.opened
  closes := by
    rw [List.forall_mem_append, List.forall_mem_singleton]
    exact ⟨h.closes, open_⟩
  full := by
    rw [used_snoc_of_le (late start h.opened)]
    exact room
  before := by
    rw [List.countP_append, List.countP_singleton]
    simpa [not_lt_of_ge (late start h.opened)] using h.before

variable [IsOrderedAddMonoid T]

/-- The window of an event is open when it comes. -/
theorem current_snoc_self (positive : 0 < span) :
    current span (times ++ [now]) now = some ((current span times now).getD now) := by
  rw [current_eq_some, windowStart_snoc]
  refine ⟨rfl, ?_⟩
  cases h : current span times now with
  | none => exact lt_add_of_pos_right now positive
  | some start => exact (current_eq_some.mp h).2

/-- A window opened after the last one has closed. -/
theorem LastWindow.reopened (positive : 0 < span) (h : LastWindow span limit times start)
    (closed : start + span ≤ now) : LastWindow span limit (times ++ [now]) now where
  opened := List.mem_append_right _ (List.mem_singleton_self now)
  closes := by
    rw [List.forall_mem_append, List.forall_mem_singleton]
    refine ⟨fun time htime => ?_, lt_add_of_pos_right now positive⟩
    exact lt_of_lt_of_le (h.closes time htime)
      (le_trans closed (le_of_lt (lt_add_of_pos_right now positive)))
  full := by
    rw [used_snoc_of_le le_rfl, used_eq_zero fun time htime =>
      lt_of_lt_of_le (h.closes time htime) closed]
    exact Nat.lt_of_le_of_lt (Nat.zero_le _) h.before
  before := by
    have missed :
        (times.countP fun time => now - span < time ∧ time < now) < used start times := by
      refine countP_lt_used h.opened fun time htime => ?_
      exact lt_of_le_of_lt (le_sub_right_of_add_le closed) (of_decide_eq_true htime).1
    rw [List.countP_append, List.countP_singleton]
    simpa using Nat.lt_of_lt_of_le missed h.full

variable (positive : 0 < span) (limited : 0 < limit)
include positive limited

theorem LastWindow.first (now : T) : LastWindow span limit [now] now := by
  refine ⟨List.mem_singleton_self now, ?_, ?_, ?_⟩
  · simpa using positive
  · simpa [used] using Nat.succ_le_of_lt limited
  · simpa using limited

theorem Paced.lastWindow (paced : Paced span limit times) :
    ∀ start, windowStart span times = some start → LastWindow span limit times start := by
  induction paced with
  | nil => simp
  | @snoc times now _ late admits ih =>
      intro start hstart
      rw [windowStart_snoc, Option.some.injEq] at hstart
      cases hcurrent : current span times now with
      | some opened =>
          rw [hcurrent, Option.getD_some] at hstart
          subst hstart
          obtain ⟨hopened, open_⟩ := current_eq_some.mp hcurrent
          exact (ih opened hopened).joined late open_ (admits opened hcurrent)
      | none =>
          rw [hcurrent, Option.getD_none] at hstart
          subst hstart
          have closed := live_eq_none.mp hcurrent
          cases hopened : windowStart span times with
          | none =>
              rw [windowStart_eq_none.mp hopened]
              exact LastWindow.first positive limited now
          | some opened => exact (ih opened hopened).reopened positive (closed opened hopened)

/-- No event has come at a time when every window is closed, or since. -/
theorem Paced.used_eq_zero (paced : Paced span limit times) (h : current span times now = none) :
    used now times = 0 := by
  refine FixedWindows.used_eq_zero fun time htime => ?_
  cases hstart : windowStart span times with
  | none =>
      rw [windowStart_eq_none.mp hstart] at htime
      exact absurd htime List.not_mem_nil
  | some start =>
      exact lt_of_lt_of_le ((paced.lastWindow positive limited start hstart).closes time htime)
        (live_eq_none.mp h start hstart)

/-- Fewer than two windows' events fall into one span. -/
theorem Paced.countP_lt (paced : Paced span limit times) {p : T → Bool}
    (within : ∀ x ∈ times, ∀ y ∈ times, p x = true → p y = true → y < x + span) :
    times.countP p < 2 * limit := by
  induction paced with
  | nil =>
      rw [List.countP_nil]
      omega
  | @snoc times now paced late admits ih =>
      have all : ∀ time ∈ times ++ [now], time ≤ now := by
        rw [List.forall_mem_append, List.forall_mem_singleton]
        exact ⟨late, le_rfl⟩
      cases hp : p now with
      | false =>
          rw [List.countP_append, List.countP_singleton, hp]
          exact ih fun x hx y hy =>
            within x (List.mem_append_left _ hx) y (List.mem_append_left _ hy)
      | true =>
          have last := (paced.snoc late admits).lastWindow positive limited _ windowStart_snoc
          generalize (current span times now).getD now = start at last
          have above : ∀ time ∈ times ++ [now], p time = true → start - span < time := by
            intro time htime hp'
            have close := within time htime now (by simp) hp' hp
            exact lt_of_le_of_lt (sub_le_sub_right (all start last.opened) span)
              (sub_right_lt_of_lt_add close)
          have parts := @countP_le_before_add_used _ _ start _ _ _ above
          have before := last.before
          have full := last.full
          omega

end

end FixedWindows
