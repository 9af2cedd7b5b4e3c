import Mathlib.Data.List.Basic

/-!
Fallible steps as `Except`: inversion of a successful sequence, guards that
raise, and the induction rules of a fallible left fold. Nothing here names a
particular error type; a program instantiates the error parameter.
-/

namespace Outcome

universe u v w
variable {ε : Type u} {α β : Type v} {γ : Type w}

/-- A guard that raises `e` when the condition holds. -/
def raiseIf (c : Prop) [Decidable c] (e : ε) : Except ε PUnit.{v + 1} :=
  if c then .error e else .ok ⟨⟩

theorem bind_ok {x : Except ε α} {f : α → Except ε β} {b : β} :
    (x >>= f) = .ok b ↔ ∃ a, x = .ok a ∧ f a = .ok b := by
  cases x with
  | error e => simp [bind, Except.bind]
  | ok a => simp [bind, Except.bind]

theorem bind_error {x : Except ε α} {f : α → Except ε β} {e : ε} :
    (x >>= f) = .error e ↔ x = .error e ∨ ∃ a, x = .ok a ∧ f a = .error e := by
  cases x with
  | error e => simp [bind, Except.bind]
  | ok a => simp [bind, Except.bind]

@[simp] theorem ok_bind (a : α) (f : α → Except ε β) :
    ((Except.ok a : Except ε α) >>= f) = f a := rfl

@[simp] theorem error_bind (e : ε) (f : α → Except ε β) :
    ((Except.error e : Except ε α) >>= f) = .error e := rfl

@[simp] theorem pure_eq_ok (a : α) : (pure a : Except ε α) = .ok a := rfl

/-- Continuations that agree on the value of the first step. -/
theorem bind_congr_ok {x : Except ε α} {f g : α → Except ε β} (h : ∀ a, x = .ok a → f a = g a) :
    x >>= f = x >>= g := by
  cases x with
  | error e => rfl
  | ok a => exact h a rfl

theorem map_bind {δ : Type v} (g : β → δ) (x : Except ε α) (f : α → Except ε β) :
    (x >>= f).map g = x >>= fun a => (f a).map g := by
  cases x <;> rfl

@[simp] theorem map_ok (g : α → β) (a : α) : (Except.ok a : Except ε α).map g = .ok (g a) := rfl

/-- A computable test of the value of a step that succeeds. -/
def okAnd (x : Except ε α) (p : α → Bool) : Bool :=
  match x with
  | .ok a => p a
  | .error _ => false

theorem exists_of_okAnd {x : Except ε α} {p : α → Bool} (h : okAnd x p = true) :
    ∃ a, x = .ok a ∧ p a = true := by
  cases x with
  | error e => contradiction
  | ok a => exact ⟨a, rfl, h⟩

/-- The error of a step that fails. -/
def failure? (x : Except ε α) : Option ε :=
  match x with
  | .ok _ => none
  | .error e => some e

theorem failure?_eq_some {x : Except ε α} {e : ε} : failure? x = some e ↔ x = .error e := by
  cases x <;> simp [failure?]

theorem raiseIf_ok {c : Prop} [Decidable c] {e : ε} {u : PUnit.{v + 1}} :
    raiseIf c e = .ok u ↔ ¬ c := by
  unfold raiseIf
  split <;> simp_all

theorem raiseIf_error {c : Prop} [Decidable c] {e e' : ε} :
    (raiseIf c e : Except ε PUnit.{v + 1}) = .error e' ↔ c ∧ e = e' := by
  unfold raiseIf
  split <;> simp_all

/-- A passed guard leaves the rest of the sequence. -/
theorem raiseIf_bind_ok {c : Prop} [Decidable c] {e : ε}
    {f : PUnit.{v + 1} → Except ε β} {b : β} :
    (raiseIf c e >>= f) = .ok b ↔ ¬ c ∧ f ⟨⟩ = .ok b := by
  rw [bind_ok]
  constructor
  · rintro ⟨u, hu, hf⟩
    exact ⟨raiseIf_ok.mp hu, hf⟩
  · rintro ⟨hc, hf⟩
    exact ⟨⟨⟩, raiseIf_ok.mpr hc, hf⟩

/-- Every error a step raises is one of `S`. -/
def Raises (S : ε → Prop) (x : Except ε α) : Prop := ∀ e, x = .error e → S e

section
variable {S : ε → Prop}

theorem raises_ok (a : α) : Raises S (.ok a : Except ε α) := fun _ h => nomatch h

theorem raises_error {e : ε} (h : S e) : Raises S (.error e : Except ε α) := by
  intro e' heq
  cases heq
  exact h

theorem raises_raiseIf {c : Prop} [Decidable c] {e : ε} (h : S e) :
    Raises S (raiseIf c e : Except ε PUnit.{v + 1}) := by
  unfold raiseIf
  split
  · exact raises_error h
  · exact raises_ok _

theorem Raises.mono {S' : ε → Prop} {x : Except ε α} (hx : Raises S x) (h : ∀ e, S e → S' e) :
    Raises S' x :=
  fun e he => h e (hx e he)

/-- The second step may rely on how the first one succeeded. -/
theorem Raises.bind {x : Except ε α} {f : α → Except ε β} (hx : Raises S x)
    (hf : ∀ a, x = .ok a → Raises S (f a)) : Raises S (x >>= f) := by
  intro e h
  rcases bind_error.mp h with h | ⟨a, ha, h⟩
  · exact hx e h
  · exact hf a ha e h

theorem raises_mapM {f : γ → Except ε β} {xs : List γ} (hf : ∀ x ∈ xs, Raises S (f x)) :
    Raises S (xs.mapM f) := by
  induction xs with
  | nil => exact raises_ok _
  | cons x xs ih =>
      rw [List.forall_mem_cons] at hf
      rw [List.mapM_cons]
      exact hf.1.bind fun y _ => (ih hf.2).bind fun ys _ => raises_ok _

theorem raises_foldlM {f : β → γ → Except ε β} (hf : ∀ s x, Raises S (f s x)) (xs : List γ)
    (s : β) : Raises S (xs.foldlM f s) := by
  induction xs generalizing s with
  | nil => exact raises_ok s
  | cons x xs ih =>
      rw [List.foldlM_cons]
      exact (hf s x).bind fun s' _ => ih s'

theorem raises_forM {f : γ → Except ε PUnit.{v + 1}} (hf : ∀ x, Raises S (f x)) (xs : List γ) :
    Raises S (xs.forM f) := by
  induction xs with
  | nil => exact raises_ok _
  | cons x xs ih => exact (hf x).bind fun _ _ => ih

end

/-- The negation of a guard that looks for an offending item. -/
theorem not_exists_mem_not {xs : List γ} {p : γ → Prop} :
    (¬ ∃ x ∈ xs, ¬ p x) ↔ ∀ x ∈ xs, p x :=
  not_exists.trans (forall_congr' fun _ => not_and_not_right)

/-- Mapping a step whose input can be read off its output. -/
theorem mapM_ok_of_inverse {f : γ → Except ε β} {g : β → γ} (inverse : ∀ x y, f x = .ok y → g y = x)
    {xs : List γ} {ys : List β} :
    xs.mapM f = .ok ys ↔ ys.map g = xs ∧ ∀ y ∈ ys, f (g y) = .ok y := by
  induction xs generalizing ys with
  | nil =>
      rw [List.mapM_nil, pure_eq_ok, Except.ok.injEq, List.map_eq_nil_iff]
      constructor
      · rintro rfl
        simp
      · rintro ⟨rfl, -⟩
        rfl
  | cons x xs ih =>
      rw [List.mapM_cons]
      simp only [bind_ok, pure_eq_ok, Except.ok.injEq]
      constructor
      · rintro ⟨y, hy, zs, hzs, rfl⟩
        obtain ⟨hmap, hall⟩ := ih.mp hzs
        have hx := inverse x y hy
        rw [List.map_cons, List.forall_mem_cons, hx, hmap]
        exact ⟨rfl, hy, hall⟩
      · rintro ⟨hmap, hall⟩
        obtain ⟨y, zs, rfl, hy, hzs⟩ := List.map_eq_cons_iff.mp hmap
        rw [List.forall_mem_cons, hy] at hall
        exact ⟨y, hall.1, zs, ih.mpr ⟨hzs, hall.2⟩, rfl⟩

/-- What each step hands on unchanged, the whole map does. -/
theorem map_eq_of_mapM_ok_mem {δ : Type*} {f : γ → Except ε β} {g : β → δ} {g' : γ → δ}
    {xs : List γ} {ys : List β} (agrees : ∀ x ∈ xs, ∀ y, f x = .ok y → g y = g' x)
    (h : xs.mapM f = .ok ys) : ys.map g = xs.map g' := by
  induction xs generalizing ys with
  | nil =>
      cases h
      rfl
  | cons x xs ih =>
      rw [List.mapM_cons] at h
      simp only [bind_ok, pure_eq_ok, Except.ok.injEq] at h
      obtain ⟨y, hy, zs, hzs, rfl⟩ := h
      rw [List.forall_mem_cons] at agrees
      rw [List.map_cons, List.map_cons, agrees.1 y hy, ih agrees.2 hzs]

theorem map_eq_of_mapM_ok {δ : Type*} {f : γ → Except ε β} {g : β → δ} {g' : γ → δ}
    (agrees : ∀ x y, f x = .ok y → g y = g' x) {xs : List γ} {ys : List β}
    (h : xs.mapM f = .ok ys) : ys.map g = xs.map g' :=
  map_eq_of_mapM_ok_mem (fun x _ => agrees x) h

/-- Every item of a mapped list passed. -/
theorem exists_of_mapM_ok {f : γ → Except ε β} {xs : List γ} {ys : List β}
    (h : xs.mapM f = .ok ys) : ∀ x ∈ xs, ∃ y ∈ ys, f x = .ok y := by
  induction xs generalizing ys with
  | nil => exact fun x hx => absurd hx List.not_mem_nil
  | cons x xs ih =>
      rw [List.mapM_cons] at h
      simp only [bind_ok, pure_eq_ok, Except.ok.injEq] at h
      obtain ⟨y, hy, zs, hzs, rfl⟩ := h
      rw [List.forall_mem_cons]
      refine ⟨⟨y, List.mem_cons_self, hy⟩, fun x' hx' => ?_⟩
      obtain ⟨z, hz, hfz⟩ := ih hzs x' hx'
      exact ⟨z, List.mem_cons_of_mem y hz, hfz⟩

/-- Every item of the result came from one that passed. -/
theorem source_of_mapM_ok {f : γ → Except ε β} {xs : List γ} {ys : List β}
    (h : xs.mapM f = .ok ys) : ∀ y ∈ ys, ∃ x ∈ xs, f x = .ok y := by
  induction xs generalizing ys with
  | nil =>
      cases h
      exact fun y hy => absurd hy List.not_mem_nil
  | cons x xs ih =>
      rw [List.mapM_cons] at h
      simp only [bind_ok, pure_eq_ok, Except.ok.injEq] at h
      obtain ⟨y, hy, zs, hzs, rfl⟩ := h
      rw [List.forall_mem_cons]
      refine ⟨⟨x, List.mem_cons_self, hy⟩, fun z hz => ?_⟩
      obtain ⟨x', hx', hfx'⟩ := ih hzs z hz
      exact ⟨x', List.mem_cons_of_mem x hx', hfx'⟩

/-- Mapping a step that passes on every item passes. -/
theorem mapM_total {f : γ → Except ε β} {xs : List γ} (h : ∀ x ∈ xs, ∃ y, f x = .ok y) :
    ∃ ys, xs.mapM f = .ok ys := by
  induction xs with
  | nil => exact ⟨[], rfl⟩
  | cons x xs ih =>
      rw [List.forall_mem_cons] at h
      obtain ⟨y, hy⟩ := h.1
      obtain ⟨ys, hys⟩ := ih h.2
      refine ⟨y :: ys, ?_⟩
      rw [List.mapM_cons, hy, ok_bind, hys]
      rfl

theorem forM_ok {f : γ → Except ε PUnit.{v + 1}} {xs : List γ} :
    xs.forM f = .ok ⟨⟩ ↔ ∀ x ∈ xs, f x = .ok ⟨⟩ := by
  induction xs with
  | nil => exact ⟨fun _ x hx => absurd hx List.not_mem_nil, fun _ => rfl⟩
  | cons x xs ih =>
      rw [List.forall_mem_cons, ← ih]
      change (f x >>= fun _ => xs.forM f) = .ok ⟨⟩ ↔ _
      rw [bind_ok]
      exact ⟨fun ⟨_, hx, hxs⟩ => ⟨hx, hxs⟩, fun ⟨hx, hxs⟩ => ⟨⟨⟩, hx, hxs⟩⟩

/-- An invariant indexed by the items already consumed holds after a plain
fold. -/
theorem foldl_inits {f : β → γ → β} {xs : List γ} (I : List γ → β → Prop) {s : β}
    (start : I [] s)
    (step : ∀ pre x post s, xs = pre ++ x :: post → I pre s → I (pre ++ [x]) (f s x)) :
    I xs (xs.foldl f s) := by
  suffices h : ∀ (pre post : List γ) (s : β), xs = pre ++ post → I pre s →
      I xs (post.foldl f s) from h [] xs s rfl start
  intro pre post
  induction post generalizing pre with
  | nil =>
      intro s hx hs
      simpa [hx] using hs
  | cons x post ih =>
      intro s hx hs
      exact ih (pre ++ [x]) (f s x) (by simp [hx]) (step pre x post s hx hs)

/-- An invariant indexed by the items already consumed holds after a
successful fold. -/
theorem foldlM_inits {f : β → γ → Except ε β} {xs : List γ}
    (I : List γ → β → Prop) {s t : β} (start : I [] s)
    (step : ∀ pre x post s s', xs = pre ++ x :: post → I pre s →
      f s x = .ok s' → I (pre ++ [x]) s')
    (run : xs.foldlM f s = .ok t) : I xs t := by
  suffices h : ∀ (pre post : List γ) (s : β), xs = pre ++ post → I pre s →
      post.foldlM f s = .ok t → I xs t from h [] xs s rfl start run
  intro pre post
  induction post generalizing pre with
  | nil =>
      intro s hx hs hr
      simp only [List.foldlM_nil, pure_eq_ok, Except.ok.injEq] at hr
      simpa [hx, ← hr] using hs
  | cons x post ih =>
      intro s hx hs hr
      rw [List.foldlM_cons, bind_ok] at hr
      obtain ⟨s', hstep, hrest⟩ := hr
      exact ih (pre ++ [x]) s' (by simp [hx]) (step pre x post s s' hx hs hstep) hrest

/-- The plain form: every step preserves `I`. -/
theorem foldlM_invariant {f : β → γ → Except ε β} {xs : List γ}
    (I : β → Prop) {s t : β} (start : I s)
    (step : ∀ x, x ∈ xs → ∀ s s', I s → f s x = .ok s' → I s')
    (run : xs.foldlM f s = .ok t) : I t := by
  apply foldlM_inits (fun _ => I) start _ run
  intro pre x post s s' hx
  exact step x (by simp [hx]) s s'

/-- Folds of steps that agree on an invariant agree. -/
theorem foldlM_congr {f g : β → γ → Except ε β} {xs : List γ} (I : β → Prop) {s : β} (start : I s)
    (agree : ∀ x, x ∈ xs → ∀ s, I s → f s x = g s x)
    (step : ∀ x, x ∈ xs → ∀ s s', I s → f s x = .ok s' → I s') :
    xs.foldlM f s = xs.foldlM g s := by
  induction xs generalizing s with
  | nil => rfl
  | cons x xs ih =>
      rw [List.foldlM_cons, List.foldlM_cons, ← agree x List.mem_cons_self s start]
      cases hx : f s x with
      | error e => rfl
      | ok s' =>
          exact ih (step x List.mem_cons_self s s' start hx)
            (fun y hy => agree y (List.mem_cons_of_mem x hy))
            (fun y hy => step y (List.mem_cons_of_mem x hy))

/-- A fold whose every step succeeds on the invariant succeeds. -/
theorem foldlM_total {f : β → γ → Except ε β} {xs : List γ}
    (I : List γ → β → Prop) {s : β} (start : I [] s)
    (step : ∀ pre x post s, xs = pre ++ x :: post → I pre s →
      ∃ s', f s x = .ok s' ∧ I (pre ++ [x]) s') :
    ∃ t, xs.foldlM f s = .ok t ∧ I xs t := by
  suffices h : ∀ (pre post : List γ) (s : β), xs = pre ++ post → I pre s →
      ∃ t, post.foldlM f s = .ok t ∧ I xs t from h [] xs s rfl start
  intro pre post
  induction post generalizing pre with
  | nil =>
      intro s hx hs
      exact ⟨s, rfl, by simpa [hx] using hs⟩
  | cons x post ih =>
      intro s hx hs
      obtain ⟨s', hstep, hs'⟩ := step pre x post s hx hs
      obtain ⟨t, hrun, ht⟩ := ih (pre ++ [x]) s' (by simp [hx]) hs'
      refine ⟨t, ?_, ht⟩
      rw [List.foldlM_cons, hstep]
      exact hrun

/-- Two results fail alike or return related values. -/
inductive Related {δ : Type v} (R : α → δ → Prop) : Except ε α → Except ε δ → Prop
  | ok {a : α} {b : δ} (h : R a b) : Related R (.ok a) (.ok b)
  | error (e : ε) : Related R (.error e) (.error e)

section
variable {α' β' : Type v} {R : α → α' → Prop} {Q : β → β' → Prop}

theorem Related.bind {x : Except ε α} {y : Except ε α'} {f : α → Except ε β}
    {g : α' → Except ε β'} (h : Related R x y)
    (hf : ∀ a b, x = .ok a → y = .ok b → R a b → Related Q (f a) (g b)) :
    Related Q (x >>= f) (y >>= g) := by
  cases h with
  | ok h => exact hf _ _ rfl rfl h
  | error e => exact .error e

/-- A guard that holds on both sides or on neither. -/
theorem Related.guard {c c' : Prop} [Decidable c] [Decidable c'] {e : ε}
    {f : PUnit.{v + 1} → Except ε β} {g : PUnit.{v + 1} → Except ε β'} (h : c ↔ c')
    (hf : ¬ c → Related Q (f ⟨⟩) (g ⟨⟩)) : Related Q (raiseIf c e >>= f) (raiseIf c' e >>= g) := by
  unfold raiseIf
  by_cases hc : c
  · rw [if_pos hc, if_pos (h.mp hc)]
    exact .error e
  · rw [if_neg hc, if_neg (h.not.mp hc)]
    exact hf hc

/-- Continuations of one and the same step. -/
theorem Related.bind_left {x : Except ε α} {f : α → Except ε β} {g : α → Except ε β'}
    (hf : ∀ a, x = .ok a → Related Q (f a) (g a)) : Related Q (x >>= f) (x >>= g) := by
  cases x with
  | error e => exact .error e
  | ok a => exact hf a rfl

theorem Related.strengthen {P : α → Prop} {P' : α' → Prop} {x : Except ε α} {y : Except ε α'}
    (h : Related R x y) (hx : ∀ a, x = .ok a → P a) (hy : ∀ b, y = .ok b → P' b) :
    Related (fun a b => R a b ∧ P a ∧ P' b) x y := by
  cases h with
  | ok h => exact .ok ⟨h, hx _ rfl, hy _ rfl⟩
  | error e => exact .error e

theorem Related.mono {R' : α → α' → Prop} {x : Except ε α} {y : Except ε α'} (h : Related R x y)
    (hR : ∀ a b, R a b → R' a b) : Related R' x y := by
  cases h with
  | ok h => exact .ok (hR _ _ h)
  | error e => exact .error e

theorem Related.eq {x y : Except ε α} (h : Related Eq x y) : x = y := by
  cases h with
  | ok h => rw [h]
  | error e => rfl

theorem Related.map {f : α → β} {g : α' → β'} {x : Except ε α} {y : Except ε α'}
    (h : Related R x y) (hf : ∀ a b, R a b → Q (f a) (g b)) : Related Q (f <$> x) (g <$> y) := by
  cases h with
  | ok h => exact .ok (hf _ _ h)
  | error e => exact .error e

/-- Folds that start related and step by step stay so. -/
theorem Related.foldlM {δ : Type*} {f : α → δ → Except ε α} {g : α' → δ → Except ε α'}
    {xs : List δ} {a : α} {b : α'} (start : R a b)
    (step : ∀ x ∈ xs, ∀ a b, R a b → Related R (f a x) (g b x)) :
    Related R (xs.foldlM f a) (xs.foldlM g b) := by
  induction xs generalizing a b with
  | nil => exact .ok start
  | cons x xs ih =>
      rw [List.forall_mem_cons] at step
      rw [List.foldlM_cons, List.foldlM_cons]
      exact (step.1 a b start).bind fun a' b' _ _ h => ih h step.2

end

end Outcome
