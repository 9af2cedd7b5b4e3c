import SmartPlanner.AuthLimiter
import SmartPlanner.Library.LaggingWindows

/-!
Attempts that overtake each other. `check` reads the clock before it takes the
lock, so the readings need not come in order; one that waits for the lock at most
`lag` seconds is at most so much behind those that were ahead of it there. What a
client gets in any 60 seconds holds then for 60 seconds less two lags.
-/

namespace SmartPlanner

open Tables LaggingWindows

namespace AuthLimiter

universe u
variable {κ : Type u}

/-- Attempts in the order in which they take the lock, each with a reading at most
`lag` behind the earlier ones. -/
def Lagging (lag : ℚ) (attempts : List (AuthAttempt κ)) : Prop :=
  attempts.Pairwise fun a b => a.now ≤ b.now + lag

/-- The windows of a client's admissions: those that some reading has closed, and
the one in the table. -/
structure Held [DecidableEq κ] (lag : ℚ) (limit : ℕ) (entries : Table (@LimiterEntry.client κ))
    (client : κ) (readings times : List ℚ) (closed : List (Window ℚ))
    (opened : Option (Window ℚ)) : Prop where
  admitted : times = events (closed ++ opened.toList)
  spaced : Spaced 60 lag limit (closed ++ opened.toList)
  shut : ∀ window ∈ closed, ∃ reading ∈ readings, window.start + 60 ≤ reading
  held : entries.find? client =
    opened.map fun window => ⟨client, window.start, window.times.length⟩

variable [DecidableEq κ] {lag : ℚ} {limit : ℕ} {limiter : AuthLimiter κ}
  {entries : Table (@LimiterEntry.client κ)} {client : κ} {readings times : List ℚ}
  {closed : List (Window ℚ)} {opened : Option (Window ℚ)} {now : ℚ}
  {attempts : List (AuthAttempt κ)} {attempt : AuthAttempt κ}

theorem find?_purged (limiter : AuthLimiter κ) (now : ℚ) (client : κ) :
    (limiter.purged now).find? client =
      (limiter.entries.find? client).filter fun entry => now < entry.start + 60 := by
  rw [purged, Table.find?_delete]
  simp [sub_lt_iff_lt_add]

/-- What an attempt leaves in the table. -/
theorem perform_entries (limiter : AuthLimiter κ) (attempt : AuthAttempt κ) :
    (limiter.Allows attempt ∧
      (((limiter.purged attempt.now).find? attempt.client).map LimiterEntry.count).getD 0 <
        limiter.limit ∧
      (limiter.perform attempt).entries = (limiter.purged attempt.now).put ⟨attempt.client,
        (((limiter.purged attempt.now).find? attempt.client).map LimiterEntry.start).getD
          attempt.now,
        (((limiter.purged attempt.now).find? attempt.client).map LimiterEntry.count).getD 0 + 1⟩) ∨
    (¬ limiter.Allows attempt ∧
      (limiter.perform attempt).entries = limiter.purged attempt.now) := by
  unfold Allows perform check
  dsimp only
  cases hknown : (limiter.purged attempt.now).find? attempt.client with
  | none =>
      simp only [Option.map_none, Option.getD_none]
      split
      · exact Or.inr ⟨by simp [Except.isOk, Except.toBool], rfl⟩
      · next h => exact Or.inl ⟨rfl, by omega, rfl⟩
  | some entry =>
      simp only [Option.map_some, Option.getD_some]
      split
      · exact Or.inr ⟨by simp [Except.isOk, Except.toBool], rfl⟩
      · next h => exact Or.inl ⟨rfl, by omega, rfl⟩

/-- A reading closes the window of the table, or leaves it open. -/
theorem Held.purged (held : Held lag limit limiter.entries client readings times closed opened)
    (now : ℚ) :
    ∃ closed opened, Held lag limit (limiter.purged now) client (readings ++ [now]) times closed
      opened ∧ ∀ window ∈ opened, now < window.start + 60 := by
  have shut : ∀ window ∈ closed, ∃ reading ∈ readings ++ [now], window.start + 60 ≤ reading := by
    intro window hwindow
    obtain ⟨reading, hreading, hle⟩ := held.shut window hwindow
    exact ⟨reading, List.mem_append_left _ hreading, hle⟩
  have found := find?_purged limiter now client
  rw [held.held] at found
  cases opened with
  | none => exact ⟨closed, none, ⟨held.admitted, held.spaced, shut, found⟩, by simp⟩
  | some window =>
      by_cases open_ : now < window.start + 60
      · rw [Option.map_some, Option.filter_some, if_pos (by simpa using open_)] at found
        exact ⟨closed, some window, ⟨held.admitted, held.spaced, shut, found⟩, by simpa using open_⟩
      · rw [Option.map_some, Option.filter_some, if_neg (by simpa using open_)] at found
        refine ⟨closed ++ [window], none, ⟨?_, ?_, ?_, found⟩, by simp⟩
        · simpa using held.admitted
        · simpa using held.spaced
        · rw [List.forall_mem_append, List.forall_mem_singleton]
          exact ⟨shut, now, by simp, not_lt.mp open_⟩

/-- An admission joins the window of the table, or opens one. -/
theorem Held.joined (held : Held lag limit entries client readings times closed opened)
    (open_ : ∀ window ∈ opened, now < window.start + 60)
    (behind : ∀ reading ∈ readings, reading ≤ now + lag)
    (room : ((entries.find? client).map LimiterEntry.count).getD 0 < limit) :
    ∃ opened, Held lag limit
      (entries.put ⟨client, ((entries.find? client).map LimiterEntry.start).getD now,
        ((entries.find? client).map LimiterEntry.count).getD 0 + 1⟩)
      client readings (times ++ [now]) closed opened := by
  have after : ∀ window ∈ closed, window.start + 60 ≤ now + lag := by
    intro window hwindow
    obtain ⟨reading, hreading, hle⟩ := held.shut window hwindow
    exact le_trans hle (behind reading hreading)
  obtain ⟨admitted, spaced, shut, found⟩ := held
  rw [found] at room ⊢
  cases opened with
  | none =>
      simp only [Option.toList_none, List.append_nil] at admitted spaced
      simp only [Option.map_none, Option.getD_none] at room ⊢
      refine ⟨some ⟨now, []⟩, ?_, ?_, shut, ?_⟩
      · rw [admitted, Option.toList_some, events_snoc]
        rfl
      · rw [Option.toList_some, spaced_snoc]
        refine ⟨spaced, room, ?_, fun window hwindow => ?_⟩
        · simp [Window.times]
        · simpa [Window.times] using after window hwindow
      · rw [Table.find?_put, if_pos rfl]
        rfl
  | some window =>
      simp only [Option.toList_some] at admitted spaced
      simp only [Option.map_some, Option.getD_some] at room ⊢
      have hopen := open_ window rfl
      obtain ⟨spaced, -, closes, apart⟩ := spaced_snoc.mp spaced
      refine ⟨some ⟨window.start, window.joined ++ [now]⟩, ?_, ?_, shut, ?_⟩
      · rw [admitted, Option.toList_some, events_snoc, events_snoc, List.append_assoc]
        rfl
      · have times : Window.times ⟨window.start, window.joined ++ [now]⟩ =
            window.times ++ [now] := rfl
        rw [Option.toList_some, spaced_snoc, times]
        refine ⟨spaced, ?_, ?_, fun earlier hearlier => ?_⟩
        · rw [List.length_append, List.length_singleton]
          exact room
        · rw [List.forall_mem_append, List.forall_mem_singleton]
          exact ⟨closes, hopen⟩
        · rw [List.forall_mem_append, List.forall_mem_singleton]
          exact ⟨apart earlier hearlier, after earlier hearlier⟩
      · rw [Table.find?_put, if_pos rfl, Option.map_some]
        simp [Window.times]

/-- The windows of a client over a run. -/
theorem held_after (limit : ℕ) (nonneg : 0 ≤ lag) (lagging : Lagging lag attempts)
    (client : κ) :
    ∃ closed opened, Held lag limit (after limit attempts).entries client
      (attempts.map AuthAttempt.now) (admissions limit client attempts) closed opened := by
  induction attempts using List.reverseRecOn with
  | nil => exact ⟨[], none, rfl, spaced_nil, by simp, rfl⟩
  | append_singleton attempts attempt ih =>
      rw [Lagging, List.pairwise_append] at lagging
      obtain ⟨closed, opened, held⟩ := ih lagging.1
      obtain ⟨closed, opened, purged, open_⟩ := held.purged attempt.now
      have behind : ∀ reading ∈ attempts.map AuthAttempt.now ++ [attempt.now],
          reading ≤ attempt.now + lag := by
        rw [List.forall_mem_append, List.forall_mem_singleton, List.forall_mem_map]
        exact ⟨fun earlier hearlier =>
          lagging.2.2 earlier hearlier attempt (List.mem_singleton_self attempt),
          le_add_of_nonneg_right nonneg⟩
      rw [after_snoc, List.map_append, List.map_singleton, admissions_snoc]
      rcases perform_entries (after limit attempts) attempt with
        ⟨allowed, room, entries⟩ | ⟨refused, entries⟩
      · rw [entries]
        rw [after_limit] at room
        by_cases hclient : attempt.client = client
        · subst hclient
          rw [if_pos ⟨rfl, allowed⟩]
          obtain ⟨opened, joined⟩ := purged.joined open_ behind room
          exact ⟨closed, opened, joined⟩
        · rw [if_neg fun h => hclient h.1]
          refine ⟨closed, opened, purged.admitted, purged.spaced, purged.shut, ?_⟩
          rw [Table.find?_put, if_neg hclient]
          exact purged.held
      · rw [entries, if_neg fun h => refused h.2]
        exact ⟨closed, opened, purged⟩

/-- A client gets less than twice the limit in any 60 seconds less two lags. -/
theorem admissions_countP_lt (nonneg : 0 ≤ lag) (limited : 1 ≤ limit)
    (lagging : Lagging lag attempts) (client : κ) (low : ℚ) :
    ((admissions limit client attempts).countP fun time =>
      low ≤ time ∧ time < low + (60 - 2 * lag)) < 2 * limit := by
  obtain ⟨closed, opened, held⟩ := held_after limit nonneg lagging client
  rw [held.admitted]
  refine held.spaced.countP_lt nonneg limited fun x _ y _ hx hy => ?_
  rw [decide_eq_true_eq] at hx hy
  linarith

/-- With a limit of one, the reading of a client's second attempt is overtaken on
its way to the lock, and the client is let through twice in a minute. -/
example : admissions 1 1 [⟨40.05, 1⟩, ⟨100.06, 2⟩, ⟨100, 1⟩] = [40.05, 100] := by decide +kernel

end AuthLimiter

end SmartPlanner
