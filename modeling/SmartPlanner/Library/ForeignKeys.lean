import SmartPlanner.Library.Table

/-!
Foreign keys between keyed tables: a link of a row, which may be null, names a
row of the parent table. A change of both tables keeps the links when every
parent keeps its target and every new link was checked.
-/

namespace Tables

universe u v
variable {κ κ' : Type u} {α β : Type v} {γ : Type u}

namespace Table
variable {key : α → κ} {key' : β → κ'}

/-- Every link of the table is the target of a row of the parents. -/
def Refers (table : Table key) (link : α → Option γ) (parents : Table key') (target : β → γ) :
    Prop :=
  ∀ row ∈ table, ∀ k, link row = some k → ∃ parent ∈ parents, target parent = k

/-- Every target of the table is one of the later table too. -/
def KeepsTargets (target : β → γ) (parents parents' : Table key') : Prop :=
  ∀ parent ∈ parents, ∃ parent' ∈ parents', target parent' = target parent

/-- Every link of the later table is one of the table, or names a parent. -/
def LinksFrom (link : α → Option γ) (parents : Table key') (target : β → γ)
    (table table' : Table key) : Prop :=
  ∀ row ∈ table', (∃ old ∈ table, link old = link row) ∨
    ∀ k, link row = some k → ∃ parent ∈ parents, target parent = k

variable {link : α → Option γ} {target : β → γ} {table table' : Table key}
  {parents parents' : Table key'}

theorem refers_empty : (empty : Table key).Refers link parents target :=
  fun row h => absurd h (not_mem_empty row)

theorem Refers.next (refers : table.Refers link parents target)
    (kept : parents.KeepsTargets target parents')
    (links : LinksFrom link parents target table table') :
    table'.Refers link parents' target := by
  intro row hrow k hk
  obtain ⟨parent, hparent, hkey⟩ : ∃ parent ∈ parents, target parent = k := by
    rcases links row hrow with ⟨old, hold, hsame⟩ | checked
    · exact refers old hold k (hsame.trans hk)
    · exact checked k hk
  obtain ⟨parent', hparent', hsame⟩ := kept parent hparent
  exact ⟨parent', hparent', hsame.trans hkey⟩

theorem keepsTargets_of_subset (h : ∀ parent ∈ parents, parent ∈ parents') :
    parents.KeepsTargets target parents' :=
  fun parent hparent => ⟨parent, h parent hparent, rfl⟩

theorem keepsTargets_refl (parents : Table key') : parents.KeepsTargets target parents :=
  keepsTargets_of_subset fun _ h => h

theorem linksFrom_of_subset (h : ∀ row ∈ table', row ∈ table) :
    LinksFrom link parents target table table' :=
  fun row hrow => Or.inl ⟨row, h row hrow, rfl⟩

theorem linksFrom_refl (table : Table key) : LinksFrom link parents target table table :=
  linksFrom_of_subset fun _ h => h

theorem linksFrom_update {p : α → Bool} {f : α → α} (keeps : ∀ row, key (f row) = key row)
    (same : ∀ row, link (f row) = link row) :
    LinksFrom link parents target table (table.update p f keeps) := by
  intro row hrow
  obtain ⟨old, hold, rfl⟩ := mem_update.mp hrow
  refine Or.inl ⟨old, hold, ?_⟩
  split
  · exact (same old).symm
  · rfl

/-- An inserted row whose link was checked. -/
theorem linksFrom_insert [DecidableEq κ] {row : α} (h : table.insert? row = some table')
    (checked : ∀ k, link row = some k → ∃ parent ∈ parents, target parent = k) :
    LinksFrom link parents target table table' := by
  intro other hother
  rcases (mem_insert? h other).mp hother with hold | rfl
  · exact Or.inl ⟨other, hold, rfl⟩
  · exact Or.inr checked

/-- Inserted rows whose links were checked. -/
theorem linksFrom_append {rows : List α} (h : ∀ row, row ∈ table' ↔ row ∈ table ∨ row ∈ rows)
    (checked : ∀ row ∈ rows, ∀ k, link row = some k → ∃ parent ∈ parents, target parent = k) :
    LinksFrom link parents target table table' := by
  intro row hrow
  rcases (h row).mp hrow with hold | hnew
  · exact Or.inl ⟨row, hold, rfl⟩
  · exact Or.inr (checked row hnew)

end Table

end Tables
