import SmartPlanner.Errors
import SmartPlanner.Library.FixedWindows
import SmartPlanner.Library.Runs
import SmartPlanner.Library.Table
import Mathlib

/-!
`AuthLimiter` of `accounts.py`: at most `limit` attempts of a client in a window
of 60 seconds, for at most 4096 clients at a time. Every check drops the entries
whose window has closed. Clock readings are rationals: subtracting 60 from a
float reading and comparing is exact for the clock's nonnegative values.
-/

namespace SmartPlanner

open Tables FixedWindows

universe u
variable {κ : Type u}

/-- An item of `self.entries`. -/
structure LimiterEntry (κ : Type u) where
  client : κ
  start : ℚ
  count : ℕ

structure AuthLimiter (κ : Type u) where
  limit : ℕ
  entries : Table (@LimiterEntry.client κ)

/-- A call of `check` and what the clock shows in it. -/
structure AuthAttempt (κ : Type u) where
  now : ℚ
  client : κ

def AppError.authRateLimit : AppError :=
  ⟨429, .authRateLimit, "تلاش‌های ورود زیاد است؛ یک دقیقه صبر کنید."⟩

namespace AuthLimiter

def new (limit : ℕ) : AuthLimiter κ := ⟨limit, .empty⟩

/-- The entries that a check keeps. -/
def purged (limiter : AuthLimiter κ) (now : ℚ) : Table (@LimiterEntry.client κ) :=
  limiter.entries.delete fun entry => !decide (entry.start > now - 60)

variable [DecidableEq κ]

def check (limiter : AuthLimiter κ) (now : ℚ) (client : κ) :
    Except PyError Unit × AuthLimiter κ :=
  let entries := limiter.purged now
  let known := entries.find? client
  let (start, count) := (known.map fun entry => (entry.start, entry.count)).getD (now, 0)
  if count ≥ limiter.limit ∨ known.isNone ∧ entries.rows.length ≥ 4096 then
    (.error (.app .authRateLimit), { limiter with entries := entries })
  else
    (.ok (), { limiter with entries := entries.put ⟨client, start, count + 1⟩ })

def perform (limiter : AuthLimiter κ) (attempt : AuthAttempt κ) : AuthLimiter κ :=
  (limiter.check attempt.now attempt.client).2

def Allows (limiter : AuthLimiter κ) (attempt : AuthAttempt κ) : Prop :=
  (limiter.check attempt.now attempt.client).1.isOk

instance decidableAllows (limiter : AuthLimiter κ) (attempt : AuthAttempt κ) :
    Decidable (limiter.Allows attempt) :=
  inferInstanceAs (Decidable ((limiter.check attempt.now attempt.client).1.isOk = true))

/-- The limiter after a run of attempts. -/
def after (limit : ℕ) (attempts : List (AuthAttempt κ)) : AuthLimiter κ :=
  Runs.run perform (new limit) attempts

/-- The attempts that are let through, in a run from a limiter on. -/
def admitted (limiter : AuthLimiter κ) : List (AuthAttempt κ) → List (AuthAttempt κ)
  | [] => []
  | attempt :: attempts =>
      if limiter.Allows attempt then attempt :: admitted (limiter.perform attempt) attempts
      else admitted (limiter.perform attempt) attempts

/-- When a client's attempts were made. -/
def timesOf (client : κ) (attempts : List (AuthAttempt κ)) : List ℚ :=
  (attempts.filter fun attempt => attempt.client = client).map AuthAttempt.now

/-- When a client was let through. -/
def admissions (limit : ℕ) (client : κ) (attempts : List (AuthAttempt κ)) : List ℚ :=
  timesOf client (admitted (new limit) attempts)

/-- The clients whose window is still open, after a run. -/
def unexpired (limit : ℕ) (attempts : List (AuthAttempt κ)) (now : ℚ) : List κ :=
  ((admitted (new limit) attempts).map AuthAttempt.client).dedup.filter fun client =>
    (current 60 (admissions limit client attempts) now).isSome

/-- The attempts take the lock in the order in which they read the clock, and it
does not go back. -/
def Forward (attempts : List (AuthAttempt κ)) : Prop :=
  attempts.Pairwise fun a b => a.now ≤ b.now

variable {limit : ℕ} {limiter : AuthLimiter κ} {now last : ℚ} {client : κ}
  {attempts : List (AuthAttempt κ)} {attempt : AuthAttempt κ}

theorem after_snoc : after limit (attempts ++ [attempt]) = (after limit attempts).perform attempt :=
  Runs.run_snoc attempts attempt

theorem admitted_append (limiter : AuthLimiter κ) (earlier later : List (AuthAttempt κ)) :
    admitted limiter (earlier ++ later) =
      admitted limiter earlier ++ admitted (Runs.run perform limiter earlier) later := by
  induction earlier generalizing limiter with
  | nil => rfl
  | cons attempt earlier ih =>
      simp only [List.cons_append, admitted, ih]
      split <;> rfl

theorem admitted_snoc : admitted (new limit) (attempts ++ [attempt]) =
    admitted (new limit) attempts ++
      if (after limit attempts).Allows attempt then [attempt] else [] := by
  rw [admitted_append]
  rfl

theorem admissions_snoc : admissions limit client (attempts ++ [attempt]) =
    if attempt.client = client ∧ (after limit attempts).Allows attempt then
      admissions limit client attempts ++ [attempt.now]
    else admissions limit client attempts := by
  unfold admissions timesOf
  rw [admitted_snoc]
  by_cases hclient : attempt.client = client <;>
    by_cases hallows : (after limit attempts).Allows attempt <;> simp [hclient, hallows]

theorem perform_limit (limiter : AuthLimiter κ) (attempt : AuthAttempt κ) :
    (limiter.perform attempt).limit = limiter.limit := by
  unfold perform check
  dsimp only
  split <;> rfl

@[simp] theorem after_limit (limit : ℕ) (attempts : List (AuthAttempt κ)) :
    (after limit attempts).limit = limit :=
  @Runs.run_invariant _ _ perform (new limit) (fun limiter => limiter.limit = limit) rfl
    (fun limiter attempt h => (perform_limit limiter attempt).trans h) attempts

omit [DecidableEq κ] in
theorem mem_purged {entry : LimiterEntry κ} :
    entry ∈ limiter.purged now ↔ entry ∈ limiter.entries ∧ now < entry.start + 60 := by
  rw [purged, Table.mem_delete]
  simp [sub_lt_iff_lt_add]

/-- The table holds, for the clients whose window was open at the last attempt,
when it opened and how many attempts it has let through. -/
structure Tracks (limit : ℕ) (attempts : List (AuthAttempt κ)) (last : ℚ) : Prop where
  past : ∀ client, ∀ time ∈ admissions limit client attempts, time ≤ last
  paced : ∀ client, Paced 60 limit (admissions limit client attempts)
  holds : ∀ entry, entry ∈ (after limit attempts).entries ↔
    current 60 (admissions limit entry.client attempts) last = some entry.start ∧
      entry.count = used entry.start (admissions limit entry.client attempts)
  bounded : (after limit attempts).entries.rows.length ≤ 4096

/-- The same at a later time, after dropping the entries whose window has closed. -/
theorem Tracks.mem_purged (tracks : Tracks limit attempts last) (later : last ≤ now)
    {entry : LimiterEntry κ} : entry ∈ (after limit attempts).purged now ↔
      current 60 (admissions limit entry.client attempts) now = some entry.start ∧
        entry.count = used entry.start (admissions limit entry.client attempts) := by
  rw [AuthLimiter.mem_purged, tracks.holds, current_eq_some, current_eq_some]
  constructor
  · rintro ⟨⟨⟨hstart, -⟩, hcount⟩, open_⟩
    exact ⟨⟨hstart, open_⟩, hcount⟩
  · rintro ⟨⟨hstart, open_⟩, hcount⟩
    exact ⟨⟨⟨hstart, lt_of_le_of_lt later open_⟩, hcount⟩, open_⟩

theorem Tracks.find?_purged (tracks : Tracks limit attempts last) (later : last ≤ now)
    (client : κ) : ((after limit attempts).purged now).find? client =
      (current 60 (admissions limit client attempts) now).map fun start =>
        ⟨client, start, used start (admissions limit client attempts)⟩ := by
  refine Option.ext fun entry => ?_
  rw [Table.find?_eq_some, tracks.mem_purged later, Option.map_eq_some_iff]
  constructor
  · rintro ⟨⟨hstart, hcount⟩, rfl⟩
    refine ⟨entry.start, hstart, ?_⟩
    rw [← hcount]
  · rintro ⟨start, hstart, rfl⟩
    exact ⟨⟨hstart, rfl⟩, rfl⟩

/-- What a check does, by the admissions so far: the client's window has room,
and it is open or the table is not full. -/
theorem Tracks.check (tracks : Tracks limit attempts last) (later : last ≤ now)
    (limited : 1 ≤ limit) (client : κ) {times : List ℚ}
    (htimes : times = admissions limit client attempts) {entries : Table (@LimiterEntry.client κ)}
    (hentries : entries = (after limit attempts).purged now) :
    (after limit attempts).check now client =
      if Admits 60 limit times now ∧
          ((current 60 times now).isSome ∨ entries.rows.length < 4096) then
        (.ok (), ⟨limit, entries.put ⟨client, (current 60 times now).getD now,
          used ((current 60 times now).getD now) (times ++ [now])⟩⟩)
      else (.error (.app .authRateLimit), ⟨limit, entries⟩) := by
  subst htimes hentries
  have late : ∀ time ∈ admissions limit client attempts, time ≤ now :=
    fun time htime => le_trans (tracks.past client time htime) later
  unfold AuthLimiter.check
  simp only [tracks.find?_purged later, after_limit]
  cases hcurrent : current 60 (admissions limit client attempts) now with
  | none =>
      have fresh := (tracks.paced client).used_eq_zero (by norm_num) limited hcurrent
      simp only [Option.map_none, Option.getD_none, Option.isNone_none, Option.isSome_none,
        used_snoc_of_le le_rfl, fresh, admits_of_none hcurrent, true_and, Bool.false_eq_true,
        false_or]
      by_cases room : ((after limit attempts).purged now).rows.length < 4096
      · rw [if_pos room, if_neg (by omega)]
      · rw [if_neg room, if_pos (by omega)]
  | some start =>
      have opened := (current_eq_some.mp hcurrent).1
      have window := (tracks.paced client).lastWindow (by norm_num) limited start opened
      simp only [Option.map_some, Option.getD_some, Option.isNone_some, Option.isSome_some,
        used_snoc_of_le (late start window.opened), admits_of_some hcurrent, Bool.false_eq_true,
        false_and, or_false, true_or, and_true]
      by_cases room : used start (admissions limit client attempts) < limit
      · rw [if_pos room, if_neg (by omega)]
      · rw [if_neg room, if_pos (by omega)]

theorem Tracks.allows_iff (tracks : Tracks limit attempts last) (later : last ≤ attempt.now)
    (limited : 1 ≤ limit) : (after limit attempts).Allows attempt ↔
      Admits 60 limit (admissions limit attempt.client attempts) attempt.now ∧
        ((current 60 (admissions limit attempt.client attempts) attempt.now).isSome ∨
          ((after limit attempts).purged attempt.now).rows.length < 4096) := by
  unfold Allows
  rw [tracks.check later limited attempt.client rfl rfl]
  split
  · next h => simp [h, Except.isOk, Except.toBool]
  · next h => simp [h, Except.isOk, Except.toBool]

theorem Tracks.entries_allowed (tracks : Tracks limit attempts last) (later : last ≤ attempt.now)
    (limited : 1 ≤ limit) (allowed : (after limit attempts).Allows attempt) {times : List ℚ}
    (htimes : times = admissions limit attempt.client attempts) {start : ℚ}
    (hstart : start = (current 60 times attempt.now).getD attempt.now) :
    (after limit (attempts ++ [attempt])).entries =
      ((after limit attempts).purged attempt.now).put
        ⟨attempt.client, start, used start (times ++ [attempt.now])⟩ := by
  subst htimes hstart
  rw [after_snoc, perform, tracks.check later limited attempt.client rfl rfl,
    if_pos ((tracks.allows_iff later limited).mp allowed)]

theorem Tracks.entries_refused (tracks : Tracks limit attempts last) (later : last ≤ attempt.now)
    (limited : 1 ≤ limit) (refused : ¬ (after limit attempts).Allows attempt) :
    (after limit (attempts ++ [attempt])).entries = (after limit attempts).purged attempt.now := by
  rw [after_snoc, perform, tracks.check later limited attempt.client rfl rfl,
    if_neg fun allowed => refused ((tracks.allows_iff later limited).mpr allowed)]

theorem Tracks.holds_snoc (tracks : Tracks limit attempts last) (later : last ≤ attempt.now)
    (limited : 1 ≤ limit) (entry : LimiterEntry κ) :
    entry ∈ (after limit (attempts ++ [attempt])).entries ↔
      current 60 (admissions limit entry.client (attempts ++ [attempt])) attempt.now =
          some entry.start ∧
        entry.count = used entry.start (admissions limit entry.client (attempts ++ [attempt])) := by
  rw [admissions_snoc]
  by_cases allowed : (after limit attempts).Allows attempt
  · rw [tracks.entries_allowed later limited allowed rfl rfl, Table.mem_put]
    by_cases hclient : attempt.client = entry.client
    · obtain ⟨client, start, count⟩ := entry
      dsimp only at hclient
      subst hclient
      rw [if_pos ⟨rfl, allowed⟩, current_snoc_self (by norm_num), Option.some.injEq,
        LimiterEntry.mk.injEq]
      constructor
      · rintro (⟨-, rfl, rfl⟩ | ⟨-, hne⟩)
        · exact ⟨rfl, rfl⟩
        · exact absurd rfl hne
      · rintro ⟨hstart, hcount⟩
        dsimp only at hstart hcount
        exact Or.inl ⟨rfl, hstart.symm, by rw [hcount, hstart]⟩
    · rw [if_neg fun h => hclient h.1, ← tracks.mem_purged later]
      constructor
      · rintro (rfl | ⟨hmem, -⟩)
        · exact absurd rfl hclient
        · exact hmem
      · exact fun hmem => Or.inr ⟨hmem, Ne.symm hclient⟩
  · rw [tracks.entries_refused later limited allowed, if_neg fun h => allowed h.2]
    exact tracks.mem_purged later

theorem Tracks.bounded_snoc (tracks : Tracks limit attempts last) (later : last ≤ attempt.now)
    (limited : 1 ≤ limit) : (after limit (attempts ++ [attempt])).entries.rows.length ≤ 4096 := by
  have kept : ((after limit attempts).purged attempt.now).rows.length ≤ 4096 :=
    le_trans (List.length_filter_le _ _) tracks.bounded
  by_cases allowed : (after limit attempts).Allows attempt
  · rw [tracks.entries_allowed later limited allowed rfl rfl, Table.length_put,
      tracks.find?_purged later, Option.isSome_map]
    have room := ((tracks.allows_iff later limited).mp allowed).2
    split
    · exact kept
    · next h => exact room.resolve_left h
  · rw [tracks.entries_refused later limited allowed]
    exact kept

/-- One more attempt. -/
theorem Tracks.snoc (tracks : Tracks limit attempts last) (later : last ≤ attempt.now)
    (limited : 1 ≤ limit) : Tracks limit (attempts ++ [attempt]) attempt.now := by
  have late : ∀ client, ∀ time ∈ admissions limit client attempts, time ≤ attempt.now :=
    fun client time htime => le_trans (tracks.past client time htime) later
  refine ⟨fun client => ?_, fun client => ?_, tracks.holds_snoc later limited,
    tracks.bounded_snoc later limited⟩
  · rw [admissions_snoc]
    split
    · rw [List.forall_mem_append, List.forall_mem_singleton]
      exact ⟨late client, le_rfl⟩
    · exact late client
  · rw [admissions_snoc]
    split
    · next h =>
        obtain ⟨rfl, allowed⟩ := h
        exact .snoc (tracks.paced _) (late _) ((tracks.allows_iff later limited).mp allowed).1
    · exact tracks.paced client

theorem tracks_nil (limit : ℕ) (last : ℚ) : Tracks limit ([] : List (AuthAttempt κ)) last where
  past := fun _ _ htime => absurd htime List.not_mem_nil
  paced := fun _ => .nil
  holds := fun entry => iff_of_false (Table.not_mem_empty entry) fun h => nomatch h.1
  bounded := Nat.zero_le _

/-- The invariant of a run, at any time from its last attempt on. -/
theorem tracks_after (limited : 1 ≤ limit) (forward : Forward attempts)
    (past : ∀ attempt ∈ attempts, attempt.now ≤ now) :
    ∃ last, last ≤ now ∧ Tracks limit attempts last := by
  induction attempts using List.reverseRecOn generalizing now with
  | nil => exact ⟨now, le_rfl, tracks_nil limit now⟩
  | append_singleton attempts attempt ih =>
      rw [Forward, List.pairwise_append] at forward
      rw [List.forall_mem_append, List.forall_mem_singleton] at past
      obtain ⟨last, later, tracks⟩ := ih forward.1 fun earlier hearlier =>
        forward.2.2 earlier hearlier attempt (List.mem_singleton_self attempt)
      exact ⟨attempt.now, past.2, tracks.snoc later limited⟩

theorem mem_admissions {time : ℚ} : time ∈ admissions limit client attempts ↔
    ∃ attempt ∈ admitted (new limit) attempts, attempt.client = client ∧ attempt.now = time := by
  simp [admissions, timesOf, and_assoc]

theorem tracks_run (limited : 1 ≤ limit) (forward : Forward attempts) :
    ∃ last, Tracks limit attempts last := by
  have past : ∃ now, ∀ attempt ∈ attempts, attempt.now ≤ now := by
    obtain ⟨now, hnow⟩ := (attempts.map AuthAttempt.now).finite_toSet.bddAbove
    exact ⟨now, fun attempt hattempt => hnow (List.mem_map_of_mem hattempt)⟩
  obtain ⟨now, past⟩ := past
  obtain ⟨last, -, tracks⟩ := tracks_after limited forward past
  exact ⟨last, tracks⟩

/-- Dropping the closed windows leaves one entry for each client whose window is
open. -/
theorem Tracks.length_purged (tracks : Tracks limit attempts last) (later : last ≤ now)
    (limited : 1 ≤ limit) :
    ((after limit attempts).purged now).rows.length = (unexpired limit attempts now).length := by
  rw [← List.length_map LimiterEntry.client]
  refine List.Perm.length_eq ((List.perm_ext_iff_of_nodup (Table.distinct _)
    ((List.nodup_dedup _).filter _)).mpr fun client => ?_)
  rw [List.mem_map, List.mem_filter, List.mem_dedup, Option.isSome_iff_exists]
  constructor
  · rintro ⟨entry, hentry, rfl⟩
    obtain ⟨hcurrent, hcount⟩ := (tracks.mem_purged later).mp hentry
    refine ⟨?_, entry.start, hcurrent⟩
    have opened := ((tracks.paced entry.client).lastWindow (by norm_num) limited entry.start
      (current_eq_some.mp hcurrent).1).opened
    obtain ⟨attempt, hattempt, hclient, -⟩ := mem_admissions.mp opened
    exact List.mem_map.mpr ⟨attempt, hattempt, hclient⟩
  · rintro ⟨-, start, hstart⟩
    exact ⟨⟨client, start, used start (admissions limit client attempts)⟩,
      (tracks.mem_purged later).mpr ⟨hstart, rfl⟩, rfl⟩

/-- A client's admissions, when the table is never full for it: what a limiter
for this client alone lets through. -/
theorem admissions_eq_permit (limited : 1 ≤ limit) (client : κ) (forward : Forward attempts)
    (room : ∀ before attempt, before ++ [attempt] <+: attempts → attempt.client = client →
      (unexpired limit before attempt.now).length < 4096) :
    admissions limit client attempts = permit 60 limit (timesOf client attempts) := by
  induction attempts using List.reverseRecOn with
  | nil => rfl
  | append_singleton attempts attempt ih =>
      rw [Forward, List.pairwise_append] at forward
      have earlier := ih forward.1 fun before other hearlier =>
        room before other (hearlier.trans (List.prefix_append attempts [attempt]))
      rw [admissions_snoc]
      by_cases hclient : attempt.client = client
      · obtain ⟨last, later, tracks⟩ := tracks_after limited forward.1 fun other hother =>
          forward.2.2 other hother attempt (List.mem_singleton_self attempt)
        have free := room attempts attempt List.prefix_rfl hclient
        rw [← tracks.length_purged later limited] at free
        have asked : timesOf client (attempts ++ [attempt]) =
            timesOf client attempts ++ [attempt.now] := by
          simp [timesOf, hclient]
        have allows := tracks.allows_iff later limited
        rw [hclient] at allows
        rw [asked, permit_snoc, ← earlier]
        refine if_congr ?_ rfl rfl
        rw [allows]
        simp [hclient, free]
      · have asked : timesOf client (attempts ++ [attempt]) = timesOf client attempts := by
          simp [timesOf, hclient]
        rw [asked, if_neg fun h => hclient h.1, earlier]

theorem admitted_sublist (limiter : AuthLimiter κ) (attempts : List (AuthAttempt κ)) :
    (admitted limiter attempts).Sublist attempts := by
  induction attempts generalizing limiter with
  | nil => exact .slnil
  | cons attempt attempts ih =>
      rw [admitted]
      split
      · exact (ih _).cons_cons attempt
      · exact (ih _).cons attempt

/-- The table of a client alone holds at most one entry. -/
theorem length_unexpired_alone (h : ∀ attempt ∈ attempts, attempt.client = client) :
    (unexpired limit attempts now).length ≤ 1 := by
  have only : unexpired limit attempts now ⊆ [client] := by
    intro other hother
    rw [unexpired, List.mem_filter, List.mem_dedup] at hother
    obtain ⟨attempt, hattempt, rfl⟩ := List.mem_map.mp hother.1
    rw [h attempt ((admitted_sublist _ _).mem hattempt)]
    exact List.mem_singleton_self client
  exact (((List.nodup_dedup _).filter _).subperm only).length_le

/-- A client for which the table is never full is let through as if it were alone. -/
theorem admissions_eq_alone (limited : 1 ≤ limit) (client : κ) (forward : Forward attempts)
    (room : ∀ before attempt, before ++ [attempt] <+: attempts → attempt.client = client →
      (unexpired limit before attempt.now).length < 4096) :
    admissions limit client attempts =
      admissions limit client (attempts.filter fun attempt => attempt.client = client) := by
  have alone : timesOf client (attempts.filter fun attempt => attempt.client = client) =
      timesOf client attempts := by
    simp [timesOf]
  rw [admissions_eq_permit limited client forward room, ← alone]
  refine (admissions_eq_permit limited client (List.Pairwise.filter _ forward)
    fun before attempt hearlier _ => ?_).symm
  have own : ∀ other ∈ before, other.client = client := by
    intro other hother
    have hmem := hearlier.subset (List.mem_append_left _ hother)
    exact of_decide_eq_true (List.mem_filter.mp hmem).2
  exact Nat.lt_of_le_of_lt (length_unexpired_alone own) (by norm_num)

theorem error_iff : (limiter.check attempt.now attempt.client).1 = .error (.app .authRateLimit) ↔
    ¬ limiter.Allows attempt := by
  unfold Allows check
  dsimp only
  split <;> simp [Except.isOk, Except.toBool]

/-- Who is refused: a client whose open window is used up, and one without an
open window that finds the table full. -/
theorem Tracks.refused_iff (tracks : Tracks limit attempts last) (later : last ≤ attempt.now)
    (limited : 1 ≤ limit) :
    ((after limit attempts).check attempt.now attempt.client).1 = .error (.app .authRateLimit) ↔
      (∃ start, current 60 (admissions limit attempt.client attempts) attempt.now = some start ∧
        used start (admissions limit attempt.client attempts) = limit) ∨
      (current 60 (admissions limit attempt.client attempts) attempt.now = none ∧
        (unexpired limit attempts attempt.now).length = 4096) := by
  rw [error_iff, tracks.allows_iff later limited]
  cases hcurrent : current 60 (admissions limit attempt.client attempts) attempt.now with
  | none =>
      have kept : ((after limit attempts).purged attempt.now).rows.length ≤ 4096 :=
        le_trans (List.length_filter_le _ _) tracks.bounded
      rw [tracks.length_purged later limited] at kept ⊢
      simp [admits_of_none hcurrent, Nat.le_antisymm_iff, kept]
  | some start =>
      have full := ((tracks.paced attempt.client).lastWindow (by norm_num) limited start
        (current_eq_some.mp hcurrent).1).full
      simp [admits_of_some hcurrent, Nat.le_antisymm_iff, full]

theorem Tracks.count_le (tracks : Tracks limit attempts last) (limited : 1 ≤ limit)
    {entry : LimiterEntry κ} (hentry : entry ∈ (after limit attempts).entries) :
    entry.count ≤ limit := by
  obtain ⟨hcurrent, hcount⟩ := (tracks.holds entry).mp hentry
  rw [hcount]
  exact ((tracks.paced entry.client).lastWindow (by norm_num) limited entry.start
    (current_eq_some.mp hcurrent).1).full

/-- The limiter keeps its bounds in every run whose readings do not go back: on
the table; on who is refused; on a client's admissions in any 60 seconds, with
either end of the interval open; and a client for which the table is never full
is let through as if it were alone. -/
theorem check_bounds (limited : 1 ≤ limit) (forward : Forward attempts) :
    ((after limit attempts).entries.rows.length ≤ 4096 ∧
      ∀ entry ∈ (after limit attempts).entries, entry.count ≤ limit) ∧
    (∀ (before : List (AuthAttempt κ)) (attempt : AuthAttempt κ),
      before ++ [attempt] <+: attempts →
      (((after limit before).check attempt.now attempt.client).1 =
          .error (.app .authRateLimit) ↔
        (∃ start, current 60 (admissions limit attempt.client before) attempt.now = some start ∧
          used start (admissions limit attempt.client before) = limit) ∨
        (current 60 (admissions limit attempt.client before) attempt.now = none ∧
          (unexpired limit before attempt.now).length = 4096))) ∧
    (∀ (client : κ) (low : ℚ),
      ((admissions limit client attempts).countP fun time => low ≤ time ∧ time < low + 60) ≤
          2 * limit - 1 ∧
      ((admissions limit client attempts).countP fun time => low < time ∧ time ≤ low + 60) ≤
          2 * limit - 1) ∧
    ∀ client, (∀ before attempt, before ++ [attempt] <+: attempts → attempt.client = client →
        (unexpired limit before attempt.now).length < 4096) →
      admissions limit client attempts =
        admissions limit client (attempts.filter fun attempt => attempt.client = client) := by
  refine ⟨?_, fun before attempt hearlier => ?_, fun client low => ?_, fun client room => ?_⟩
  · obtain ⟨last, tracks⟩ := tracks_run limited forward
    exact ⟨tracks.bounded, fun entry hentry => tracks.count_le limited hentry⟩
  · have forward := forward.sublist hearlier.sublist
    rw [List.pairwise_append] at forward
    obtain ⟨last, later, tracks⟩ := tracks_after limited forward.1 fun other hother =>
      forward.2.2 other hother attempt (List.mem_singleton_self attempt)
    exact tracks.refused_iff later limited
  · obtain ⟨last, tracks⟩ := tracks_run limited forward
    have paced := tracks.paced client
    constructor <;> refine Nat.le_sub_one_of_lt (paced.countP_lt (by norm_num) limited ?_)
    · intro x _ y _ hx hy
      rw [decide_eq_true_eq] at hx hy
      linarith
    · intro x _ y _ hx hy
      rw [decide_eq_true_eq] at hx hy
      linarith
  · exact admissions_eq_alone limited client forward room

/-- Five attempts of a client, three of them within three seconds. -/
def overTwoWindows : List (AuthAttempt ℕ) :=
  [⟨0, 1⟩, ⟨30, 2⟩, ⟨59, 1⟩, ⟨59, 1⟩, ⟨61, 1⟩, ⟨62, 1⟩]

theorem check_bounds_two_windows :
    admissions 2 1 overTwoWindows = [0, 59, 61, 62] ∧
      ((admissions 2 1 overTwoWindows).countP fun time => 59 ≤ time ∧ time < 59 + 60) ≤
        2 * 2 - 1 := by
  have forward : Forward overTwoWindows := by
    unfold Forward overTwoWindows
    norm_num
  exact ⟨by decide +kernel, ((check_bounds (by decide) forward).2.2.1 1 59).1⟩

end AuthLimiter

end SmartPlanner
