import Mathlib.Algebra.Order.Group.Defs
import Mathlib.Algebra.Order.Monoid.Unbundled.Basic
import Mathlib.Data.List.Basic
import Mathlib.Data.List.Induction
import Mathlib.Order.Defs.LinearOrder

/-!
Windows of one length whose events do not come in order. A window holds at most
`limit` events, all before it closes; the events of a later one come no earlier
than it closed, up to a lag. Less than two windows' events fall into one span that
is shortened by two lags.
-/

namespace LaggingWindows

universe u

/-- The events of a window, the one that opened it apart. -/
structure Window (T : Type u) where
  start : T
  joined : List T

variable {T : Type u}

def Window.times (window : Window T) : List T := window.start :: window.joined

/-- The events of windows that follow each other. -/
def events (windows : List (Window T)) : List T := windows.flatMap Window.times

theorem events_snoc (windows : List (Window T)) (window : Window T) :
    events (windows ++ [window]) = events windows ++ window.times := by
  simp [events]

theorem mem_events {windows : List (Window T)} {time : T} :
    time ∈ events windows ↔ ∃ window ∈ windows, time ∈ window.times := by
  simp [events]

section
variable [AddCommGroup T] [LinearOrder T]

/-- Windows in the order in which they opened. -/
structure Spaced (span lag : T) (limit : ℕ) (windows : List (Window T)) : Prop where
  full : ∀ window ∈ windows, window.times.length ≤ limit
  closes : ∀ window ∈ windows, ∀ time ∈ window.times, time < window.start + span
  apart : windows.Pairwise fun window later =>
    ∀ time ∈ later.times, window.start + span ≤ time + lag

variable {span lag : T} {limit : ℕ} {windows : List (Window T)} {window : Window T}

theorem spaced_nil : Spaced span lag limit ([] : List (Window T)) :=
  ⟨by simp, by simp, .nil⟩

theorem Spaced.init (spaced : Spaced span lag limit (windows ++ [window])) :
    Spaced span lag limit windows :=
  ⟨fun window h => spaced.full window (List.mem_append_left _ h),
    fun window h => spaced.closes window (List.mem_append_left _ h),
    (List.pairwise_append.mp spaced.apart).1⟩

theorem spaced_snoc : Spaced span lag limit (windows ++ [window]) ↔
    Spaced span lag limit windows ∧ window.times.length ≤ limit ∧
      (∀ time ∈ window.times, time < window.start + span) ∧
      ∀ earlier ∈ windows, ∀ time ∈ window.times, earlier.start + span ≤ time + lag := by
  constructor
  · intro spaced
    refine ⟨spaced.init, spaced.full window (by simp), spaced.closes window (by simp),
      fun earlier h => ?_⟩
    exact (List.pairwise_append.mp spaced.apart).2.2 earlier h window (by simp)
  · rintro ⟨spaced, full, closes, apart⟩
    refine ⟨?_, ?_, List.pairwise_append.mpr ⟨spaced.apart, List.pairwise_singleton _ _, ?_⟩⟩
    · rw [List.forall_mem_append, List.forall_mem_singleton]
      exact ⟨spaced.full, full⟩
    · rw [List.forall_mem_append, List.forall_mem_singleton]
      exact ⟨spaced.closes, closes⟩
    · simpa only [List.forall_mem_singleton] using apart

variable [IsOrderedAddMonoid T]

/-- Events with a window between theirs are more than a shortened span apart. -/
theorem Spaced.far {first between last : Window T} {before : List (Window T)}
    (spaced : Spaced span lag limit ((before ++ [between]) ++ [last])) (earlier : first ∈ before)
    {x z : T} (hx : x ∈ first.times) (hz : z ∈ last.times) : x + span < z + lag + lag := by
  obtain ⟨spaced, -, -, apart⟩ := spaced_snoc.mp spaced
  have closes := spaced.closes first (List.mem_append_left _ earlier) x hx
  have next := (spaced_snoc.mp spaced).2.2.2 first earlier between.start List.mem_cons_self
  have after := apart between (by simp) z hz
  grind

/-- Less than two windows' events fall into a shortened span. -/
theorem Spaced.countP_lt (spaced : Spaced span lag limit windows) (nonneg : 0 ≤ lag)
    (limited : 0 < limit) {p : T → Bool}
    (within : ∀ x ∈ events windows, ∀ y ∈ events windows, p x = true → p y = true →
      y + lag + lag < x + span) :
    (events windows).countP p < 2 * limit := by
  induction windows using List.reverseRecOn with
  | nil =>
      rw [events, List.flatMap_nil, List.countP_nil]
      omega
  | append_singleton windows last ih =>
      have full := spaced.full last (by simp)
      have most : last.times.countP p ≤ last.times.length := List.countP_le_length
      rw [events_snoc] at within ⊢
      rw [List.countP_append]
      by_cases hits : ∃ z ∈ last.times, p z = true
      · obtain ⟨z, hz, hpz⟩ := hits
        rcases List.eq_nil_or_concat' windows with rfl | ⟨before, between, rfl⟩
        · rw [events, List.flatMap_nil, List.countP_nil]
          omega
        · have misses : (events before).countP p = 0 := by
            rw [List.countP_eq_zero]
            intro x hx hpx
            obtain ⟨first, earlier, hx⟩ := mem_events.mp hx
            have far := spaced.far earlier hx hz
            have among : x ∈ events (before ++ [between]) := by
              rw [events_snoc]
              exact List.mem_append_left _ (mem_events.mpr ⟨first, earlier, hx⟩)
            exact lt_asymm far
              (within x (List.mem_append_left _ among) z (List.mem_append_right _ hz) hpx hpz)
          have most' : between.times.countP p ≤ between.times.length := List.countP_le_length
          have full' := spaced.full between (by simp)
          rw [events_snoc, List.countP_append, misses]
          -- were both windows full, the openings would lie in the span
          by_contra two
          have opens := List.countP_eq_length.mp (show between.times.countP p = _ by omega)
            between.start List.mem_cons_self
          have opens' := List.countP_eq_length.mp (show last.times.countP p = _ by omega)
            last.start List.mem_cons_self
          have near := within between.start (by simp [events_snoc, Window.times]) last.start
            (by simp [Window.times]) opens opens'
          have next := (spaced_snoc.mp spaced).2.2.2 between (by simp) last.start
            List.mem_cons_self
          grind
      · have misses : last.times.countP p = 0 := by
          rw [List.countP_eq_zero]
          exact fun time htime hp => hits ⟨time, htime, hp⟩
        rw [misses, Nat.add_zero]
        exact ih spaced.init fun x hx y hy =>
          within x (List.mem_append_left _ hx) y (List.mem_append_left _ hy)

end

end LaggingWindows
