import Mathlib.Data.List.Induction

/-!
Runs of a deterministic state machine: the states reached by lists of commands,
the invariant rule, and the rule for a property of each step taken on the way.
-/

namespace Runs

universe u v
variable {σ : Type u} {κ : Type v} {step : σ → κ → σ} {start : σ}

def run (step : σ → κ → σ) (start : σ) (commands : List κ) : σ := commands.foldl step start

@[simp] theorem run_nil : run step start [] = start := rfl

@[simp] theorem run_snoc (commands : List κ) (command : κ) :
    run step start (commands ++ [command]) = step (run step start commands) command := by
  simp [run, List.foldl_append]

theorem run_cons (command : κ) (commands : List κ) :
    run step start (command :: commands) = run step (step start command) commands := rfl

/-- What holds at the start and is preserved by a step holds after every run. -/
theorem run_invariant {I : σ → Prop} (initial : I start)
    (preserved : ∀ state command, I state → I (step state command)) (commands : List κ) :
    I (run step start commands) := by
  induction commands generalizing start with
  | nil => exact initial
  | cons command commands ih => exact ih (preserved start command initial)

/-- The same, where only the commands of the run need to preserve it. -/
theorem run_invariant_of_mem {I : σ → Prop} (initial : I start) {commands : List κ}
    (preserved : ∀ state, ∀ command ∈ commands, I state → I (step state command)) :
    I (run step start commands) := by
  induction commands generalizing start with
  | nil => exact initial
  | cons command commands ih =>
      exact ih (preserved start command List.mem_cons_self initial) fun state other hmem =>
        preserved state other (List.mem_cons_of_mem command hmem)

theorem run_append (before after : List κ) :
    run step start (before ++ after) = run step (run step start before) after :=
  List.foldl_append

theorem run_take_le (commands : List κ) {i j : ℕ} (h : i ≤ j) :
    run step start (commands.take j) =
      run step (run step start (commands.take i)) ((commands.take j).drop i) := by
  have split := List.take_append_drop i (commands.take j)
  rw [List.take_take, Nat.min_eq_left h] at split
  rw [← run_append, split]

/-- What holds at one point of a run and is preserved by each command after it
holds from there on. -/
theorem run_stays {I : σ → Prop} {after : List κ} (initial : I start)
    (preserved : ∀ middle command, middle ++ [command] <+: after → I (run step start middle) →
      I (step (run step start middle) command)) :
    ∀ middle, middle <+: after → I (run step start middle) := by
  intro middle
  induction middle using List.reverseRecOn with
  | nil => exact fun _ => initial
  | append_singleton middle command ih =>
      intro hprefix
      rw [run_snoc]
      exact preserved middle command hprefix
        (ih ((List.prefix_append middle [command]).trans hprefix))

/-- A command of a run together with the state it is performed in. -/
def Occurs (step : σ → κ → σ) (start : σ) (commands : List κ) (state : σ) (command : κ) : Prop :=
  ∃ before after, commands = before ++ command :: after ∧ state = run step start before

theorem not_occurs_nil (state : σ) (command : κ) : ¬ Occurs step start [] state command := by
  rintro ⟨before, after, h, -⟩
  simp at h

theorem occurs_cons {first : κ} {commands : List κ} {state : σ} {command : κ} :
    Occurs step start (first :: commands) state command ↔
      (state = start ∧ command = first) ∨
        Occurs step (step start first) commands state command := by
  constructor
  · rintro ⟨before, after, h, rfl⟩
    cases before with
    | nil =>
        rw [List.nil_append, List.cons.injEq] at h
        exact Or.inl ⟨rfl, h.1.symm⟩
    | cons other before =>
        rw [List.cons_append, List.cons.injEq] at h
        rw [← h.1]
        exact Or.inr ⟨before, after, h.2, rfl⟩
  · rintro (⟨rfl, rfl⟩ | ⟨before, after, rfl, rfl⟩)
    · exact ⟨[], commands, rfl, rfl⟩
    · exact ⟨first :: before, after, rfl, rfl⟩

/-- A step property that follows from a guard and an invariant holds at every
command of a run whose commands all meet the guard. -/
theorem occurs_of_guarded {I : σ → Prop} {guard good : σ → κ → Prop} (initial : I start)
    (preserved : ∀ state command, I state → I (step state command))
    (sound : ∀ state command, I state → guard state command → good state command)
    {commands : List κ}
    (guarded : ∀ state command, Occurs step start commands state command → guard state command) :
    ∀ state command, Occurs step start commands state command → good state command := by
  intro state command occurs
  have met := guarded state command occurs
  obtain ⟨before, -, -, rfl⟩ := occurs
  exact sound _ command (run_invariant initial preserved before) met

/-- What the commands of a run emit, each in the state it is performed in. -/
def trace {ω : Type*} (step : σ → κ → σ) (emit : σ → κ → List ω) (start : σ) :
    List κ → List ω
  | [] => []
  | command :: commands => emit start command ++ trace step emit (step start command) commands

section
variable {ω : Type*} {emit : σ → κ → List ω}

theorem trace_append (before after : List κ) :
    trace step emit start (before ++ after) =
      trace step emit start before ++ trace step emit (run step start before) after := by
  induction before generalizing start with
  | nil => rfl
  | cons command before ih =>
      rw [List.cons_append, trace, trace, ih, List.append_assoc]
      rfl

theorem trace_snoc (commands : List κ) (command : κ) :
    trace step emit start (commands ++ [command]) =
      trace step emit start commands ++ emit (run step start commands) command := by
  rw [trace_append]
  simp [trace]

/-- An item of a trace, with the command that emitted it. -/
theorem trace_eq_append_cons {commands : List κ} {before later : List ω} {item : ω}
    (h : trace step emit start commands = before ++ item :: later) :
    ∃ first command last front back, commands = first ++ command :: last ∧
      emit (run step start first) command = front ++ item :: back ∧
      before = trace step emit start first ++ front ∧
      later = back ++ trace step emit (step (run step start first) command) last := by
  induction commands generalizing start before with
  | nil => simp [trace] at h
  | cons command commands ih =>
      rw [trace, List.append_eq_append_iff] at h
      rcases h with ⟨front, rfl, hrest⟩ | ⟨back, hemit, hlater⟩
      · obtain ⟨first, other, last, front', back, rfl, hemit, rfl, rfl⟩ := ih hrest
        exact ⟨command :: first, other, last, front', back, rfl, hemit,
          by rw [trace, List.append_assoc], rfl⟩
      · cases back with
        | nil =>
            rw [List.append_nil] at hemit
            obtain ⟨first, other, last, front', back, rfl, hemit', hbefore, rfl⟩ :=
              @ih _ [] hlater.symm
            refine ⟨command :: first, other, last, front', back, rfl, hemit', ?_, rfl⟩
            rw [trace, List.append_assoc, ← hbefore, List.append_nil, hemit]
        | cons other back =>
            rw [List.cons_append, List.cons.injEq] at hlater
            obtain ⟨rfl, rfl⟩ := hlater
            exact ⟨[], command, commands, before, back, rfl, hemit, rfl, rfl⟩

theorem mem_trace {commands : List κ} {item : ω} :
    item ∈ trace step emit start commands ↔
      ∃ state command, Occurs step start commands state command ∧ item ∈ emit state command := by
  induction commands generalizing start with
  | nil =>
      refine iff_of_false (List.not_mem_nil) ?_
      rintro ⟨state, command, hoccurs, -⟩
      exact not_occurs_nil state command hoccurs
  | cons first commands ih =>
      rw [trace, List.mem_append, ih]
      constructor
      · rintro (h | ⟨state, command, hoccurs, h⟩)
        · exact ⟨start, first, occurs_cons.mpr (Or.inl ⟨rfl, rfl⟩), h⟩
        · exact ⟨state, command, occurs_cons.mpr (Or.inr hoccurs), h⟩
      · rintro ⟨state, command, hoccurs, h⟩
        rcases occurs_cons.mp hoccurs with ⟨rfl, rfl⟩ | hoccurs
        · exact Or.inl h
        · exact Or.inr ⟨state, command, hoccurs, h⟩

end

/-- The command at place `i` of a run meets a state in which it fires. -/
def FiresAt (step : σ → κ → σ) (start : σ) (commands : List κ) (fires : σ → κ → Prop)
    (i : ℕ) : Prop :=
  ∃ command, commands[i]? = some command ∧ fires (run step start (commands.take i)) command

section
variable {fires : σ → κ → Prop} {mark : σ → Prop} {commands : List κ}

theorem run_take_succ {i : ℕ} {command : κ} (h : commands[i]? = some command) :
    run step start (commands.take (i + 1)) = step (run step start (commands.take i)) command := by
  rw [List.take_add_one, h, Option.toList_some, run_snoc]

/-- Whether a command fires depends on what came before it only. -/
theorem firesAt_take {i j : ℕ} (h : i < j) :
    FiresAt step start (commands.take j) fires i ↔ FiresAt step start commands fires i := by
  unfold FiresAt
  rw [List.getElem?_take_of_lt h, List.take_take, Nat.min_eq_left (Nat.le_of_lt h)]

theorem firesAt_lt {i : ℕ} (h : FiresAt step start commands fires i) : i < commands.length := by
  obtain ⟨command, hcommand, -⟩ := h
  exact (List.getElem?_eq_some_iff.mp hcommand).1

theorem firesAt_snoc {i : ℕ} (command : κ) (h : FiresAt step start commands fires i) :
    FiresAt step start (commands ++ [command]) fires i := by
  refine (firesAt_take (firesAt_lt h)).mp ?_
  rwa [List.take_left]

section
variable {I : σ → Prop} (initial : I start)
  (preserved : ∀ state command, I state → I (step state command))
include initial preserved

/-- A mark that a firing command leaves and no command clears is there from then
on. -/
theorem marked_of_firesAt
    (marks : ∀ state command, I state → fires state command → mark (step state command))
    (sticky : ∀ state command, I state → mark state → mark (step state command)) {i : ℕ}
    (h : FiresAt step start commands fires i) : mark (run step start commands) := by
  obtain ⟨command, hcommand, hfires⟩ := h
  have before := run_invariant initial preserved (commands.take i)
  rw [← List.take_append_drop (i + 1) commands, run_append, run_take_succ hcommand]
  exact (run_invariant (I := fun state => I state ∧ mark state)
    ⟨preserved _ command before, marks _ command before hfires⟩
    (fun state command h => ⟨preserved state command h.1, sticky state command h.1 h.2⟩) _).2

/-- What fires only without its mark fires at most once. -/
theorem firesAt_unique (unmarked : ∀ state command, I state → fires state command → ¬ mark state)
    (marks : ∀ state command, I state → fires state command → mark (step state command))
    (sticky : ∀ state command, I state → mark state → mark (step state command)) {i j : ℕ}
    (hi : FiresAt step start commands fires i) (hj : FiresAt step start commands fires j) :
    i = j := by
  have earlier : ∀ i j, i < j → FiresAt step start commands fires i →
      ¬ FiresAt step start commands fires j := by
    rintro i j hlt hi ⟨second, -, hagain⟩
    refine unmarked _ second (run_invariant initial preserved _) hagain ?_
    exact marked_of_firesAt initial preserved marks sticky ((firesAt_take hlt).mpr hi)
  rcases Nat.lt_trichotomy i j with hlt | rfl | hlt
  · exact absurd hj (earlier i j hlt hi)
  · rfl
  · exact absurd hi (earlier j i hlt hj)

/-- A mark that only a firing command leaves has been left by one. -/
theorem exists_firesAt (unmarked : ¬ mark start)
    (only : ∀ state command, I state → mark (step state command) →
      mark state ∨ fires state command)
    (h : mark (run step start commands)) : ∃ i, FiresAt step start commands fires i := by
  induction commands using List.reverseRecOn with
  | nil => exact absurd h unmarked
  | append_singleton commands command ih =>
      rw [run_snoc] at h
      rcases only _ command (run_invariant initial preserved commands) h with h | h
      · obtain ⟨i, hi⟩ := ih h
        exact ⟨i, firesAt_snoc command hi⟩
      · exact ⟨commands.length, command, by simp, by simpa using h⟩

end

end

end Runs
