import SmartPlanner.Library.Runs

/-!
Noninterference by unwinding. A machine answers operations of several owners
over one state; what an owner sees of a state is an equivalence of states. If
the operations of others leave the view of an owner alone, and its own answers
and their effect on its view depend on its view only, then an owner cannot tell
a run from the run of its own operations.
-/

namespace Unwinding

open Runs

variable {σ ω α δ : Type}

structure Machine (σ ω α δ : Type) where
  owner : ω → δ
  respond : σ → ω → α × σ

namespace Machine
variable (m : Machine σ ω α δ)

def next (s : σ) (op : ω) : σ := (m.respond s op).2

def final (s : σ) (ops : List ω) : σ := run m.next s ops

/-- The responses an owner receives in a run. -/
def observed [DecidableEq δ] (d : δ) : σ → List ω → List α
  | _, [] => []
  | s, op :: ops =>
      if m.owner op = d then (m.respond s op).1 :: observed d (m.next s op) ops
      else observed d (m.next s op) ops

/-- The run with the operations of one owner only. -/
def purge [DecidableEq δ] (d : δ) (ops : List ω) : List ω := ops.filter fun op => m.owner op = d

/-- Each operation of one owner meets a condition where it is performed. -/
def Admitted (ok : σ → ω → Prop) (d : δ) (s : σ) (ops : List ω) : Prop :=
  ∀ state op, Occurs m.next s ops state op → m.owner op = d → ok state op

structure Unwinds (I : σ → Prop) (ok : σ → ω → Prop) (agree : δ → σ → σ → Prop) : Prop where
  symm : ∀ {d s t}, agree d s t → agree d t s
  trans : ∀ {d s t u}, agree d s t → agree d t u → agree d s u
  preserved : ∀ {s} op, I s → I (m.next s op)
  respects : ∀ {s d} op, I s → m.owner op ≠ d → agree d s (m.next s op)
  consistent : ∀ {s t} op, I s → I t → agree (m.owner op) s t → ok s op → ok t op →
    (m.respond s op).1 = (m.respond t op).1 ∧ agree (m.owner op) (m.next s op) (m.next t op)

variable {m} {I : σ → Prop} {ok : σ → ω → Prop} {agree : δ → σ → σ → Prop} {d : δ} {s t : σ}
  {op : ω} {ops : List ω}

theorem Admitted.tail (h : m.Admitted ok d s (op :: ops)) : m.Admitted ok d (m.next s op) ops :=
  fun state other hoccurs => h state other (occurs_cons.mpr (Or.inr hoccurs))

theorem Admitted.head (h : m.Admitted ok d s (op :: ops)) (howner : m.owner op = d) : ok s op :=
  h s op (occurs_cons.mpr (Or.inl ⟨rfl, rfl⟩)) howner

theorem Unwinds.noninterference [DecidableEq δ] (unwinds : m.Unwinds I ok agree) (hs : I s)
    (ht : I t) (view : agree d s t) (admittedS : m.Admitted ok d s ops)
    (admittedT : m.Admitted ok d t (m.purge d ops)) :
    m.observed d s ops = m.observed d t (m.purge d ops) ∧
      agree d (m.final s ops) (m.final t (m.purge d ops)) := by
  induction ops generalizing s t with
  | nil => exact ⟨rfl, view⟩
  | cons op ops ih =>
      by_cases howner : m.owner op = d
      · have hpurge : m.purge d (op :: ops) = op :: m.purge d ops := by
          simp only [purge, List.filter_cons, howner, decide_true, if_true]
        rw [hpurge] at admittedT ⊢
        simp only [observed, howner, if_true]
        obtain rfl := howner
        obtain ⟨hanswer, hnext⟩ := unwinds.consistent op hs ht view (admittedS.head rfl)
          (admittedT.head rfl)
        obtain ⟨hrest, hfinal⟩ := ih (unwinds.preserved op hs) (unwinds.preserved op ht) hnext
          admittedS.tail admittedT.tail
        exact ⟨by rw [hanswer, hrest], hfinal⟩
      · have hpurge : m.purge d (op :: ops) = m.purge d ops := by
          simp only [purge, List.filter_cons, howner, decide_false, Bool.false_eq_true, if_false]
        rw [hpurge] at admittedT ⊢
        simp only [observed, howner, if_false]
        have hnext := unwinds.trans (unwinds.symm (unwinds.respects op hs howner)) view
        exact ih (unwinds.preserved op hs) ht hnext admittedS.tail admittedT

end Machine

end Unwinding
