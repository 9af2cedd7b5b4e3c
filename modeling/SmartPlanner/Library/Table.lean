import Mathlib.Data.List.Nodup
import Mathlib.Data.List.Basic

/-!
Keyed tables: finite lists of rows in which no two rows share a key. The key
constraint is a field, so every table value is well keyed and a lookup returns
the row with the key, not some row.
-/

namespace Tables

universe u v
variable {κ : Type u} {α : Type v}

structure Table (key : α → κ) where
  rows : List α
  distinct : (rows.map key).Nodup

namespace Table
variable {key : α → κ}

instance : Membership α (Table key) := ⟨fun table row => row ∈ table.rows⟩

theorem mem_rows {table : Table key} {row : α} : row ∈ table.rows ↔ row ∈ table := Iff.rfl

def empty : Table key := ⟨[], by simp⟩

@[simp] theorem not_mem_empty (row : α) : ¬ row ∈ (empty : Table key) :=
  List.not_mem_nil

/-- Two rows with one key are the same row. -/
theorem eq_of_key {table : Table key} {a b : α} (ha : a ∈ table) (hb : b ∈ table)
    (h : key a = key b) : a = b :=
  List.inj_on_of_nodup_map table.distinct ha hb h

/-- A search for what at most one row has. -/
theorem rows_find?_eq_some {table : Table key} {p : α → Bool}
    (unique : ∀ a ∈ table, ∀ b ∈ table, p a = true → p b = true → a = b) {row : α} :
    table.rows.find? p = some row ↔ row ∈ table ∧ p row = true := by
  constructor
  · exact fun h => ⟨List.mem_of_find?_eq_some h, List.find?_some h⟩
  · rintro ⟨hrow, hp⟩
    cases hfind : table.rows.find? p with
    | none => exact absurd hp (List.find?_eq_none.mp hfind row hrow)
    | some other =>
        rw [unique other (List.mem_of_find?_eq_some hfind) row hrow (List.find?_some hfind) hp]

/-- A new last row that the search passes over. -/
theorem find?_snoc_of_neg {rows : List α} {row : α} {p : α → Bool} (h : ¬ p row = true) :
    (rows ++ [row]).find? p = rows.find? p := by
  rw [List.find?_append, List.find?_singleton, if_neg h, Option.or_none]

section
variable [DecidableEq κ]

def find? (table : Table key) (k : κ) : Option α := table.rows.find? fun row => key row = k

theorem find?_eq_some {table : Table key} {k : κ} {row : α} :
    table.find? k = some row ↔ row ∈ table ∧ key row = k := by
  constructor
  · intro h
    exact ⟨List.mem_of_find?_eq_some h, by simpa using List.find?_some h⟩
  · rintro ⟨hrow, rfl⟩
    unfold find?
    cases hfind : table.rows.find? fun other => key other = key row with
    | none =>
        rw [List.find?_eq_none] at hfind
        exact absurd (by simp) (hfind row hrow)
    | some other =>
        have hkey : key other = key row := by simpa using List.find?_some hfind
        rw [table.eq_of_key (List.mem_of_find?_eq_some hfind) hrow hkey]

theorem find?_eq_none {table : Table key} {k : κ} :
    table.find? k = none ↔ ∀ row ∈ table, key row ≠ k := by
  unfold find?
  rw [List.find?_eq_none]
  simp [mem_rows]

/-- What holds of some row with a key holds of the row that is found. -/
theorem exists_key_iff {table : Table key} {k : κ} {P : α → Prop} :
    (∃ row ∈ table, key row = k ∧ P row) ↔ ∃ row, table.find? k = some row ∧ P row := by
  simp only [find?_eq_some, and_assoc]

/-- `INSERT`, refused when the key is taken. -/
def insert? (table : Table key) (row : α) : Option (Table key) :=
  if h : key row ∈ table.rows.map key then none
  else some ⟨table.rows ++ [row], by
    rw [List.map_append, List.nodup_append]
    refine ⟨table.distinct, by simp, ?_⟩
    rintro k hk k' hk' rfl
    simp only [List.map_cons, List.map_nil, List.mem_singleton] at hk'
    exact h (hk' ▸ hk)⟩

theorem insert?_eq_some {table table' : Table key} {row : α}
    (h : table.insert? row = some table') :
    (∀ other ∈ table, key other ≠ key row) ∧ table'.rows = table.rows ++ [row] := by
  unfold insert? at h
  split at h
  · contradiction
  · next hfree =>
      cases h
      refine ⟨fun other ho heq => hfree ?_, rfl⟩
      exact List.mem_map.mpr ⟨other, ho, heq⟩

theorem insert?_eq_none {table : Table key} {row : α} :
    table.insert? row = none ↔ ∃ other ∈ table, key other = key row := by
  unfold insert?
  split
  · next h => exact iff_of_true rfl (List.mem_map.mp h)
  · next h => exact iff_of_false (Option.some_ne_none _) fun hmem => h (List.mem_map.mpr hmem)

theorem insert?_isSome (table : Table key) (row : α)
    (free : ∀ other ∈ table, key other ≠ key row) :
    ∃ table', table.insert? row = some table' := by
  unfold insert?
  have hfree : key row ∉ table.rows.map key := by
    intro hmem
    obtain ⟨other, ho, heq⟩ := List.mem_map.mp hmem
    exact free other ho heq
  exact ⟨_, dif_neg hfree⟩

theorem mem_insert? {table table' : Table key} {row : α}
    (h : table.insert? row = some table') (other : α) :
    other ∈ table' ↔ other ∈ table ∨ other = row := by
  rw [← mem_rows, (insert?_eq_some h).2]
  simp [mem_rows]

/-- Inserting several rows, all or nothing. -/
def insertAll? (table : Table key) : List α → Option (Table key)
  | [] => some table
  | row :: rows => (table.insert? row).bind fun table => insertAll? table rows

theorem mem_insertAll? {table table' : Table key} {rows : List α}
    (h : table.insertAll? rows = some table') (other : α) :
    other ∈ table' ↔ other ∈ table ∨ other ∈ rows := by
  induction rows generalizing table with
  | nil =>
      simp only [insertAll?, Option.some.injEq] at h
      simp [h]
  | cons row rows ih =>
      simp only [insertAll?, Option.bind_eq_some_iff] at h
      obtain ⟨middle, hrow, hrows⟩ := h
      rw [ih hrows, mem_insert? hrow, List.mem_cons, or_assoc]

theorem insertAll?_isSome (table : Table key) (rows : List α) (nodup : (rows.map key).Nodup)
    (free : ∀ row ∈ rows, ∀ other ∈ table, key other ≠ key row) :
    ∃ table', table.insertAll? rows = some table' := by
  induction rows generalizing table with
  | nil => exact ⟨table, rfl⟩
  | cons row rows ih =>
      rw [List.map_cons, List.nodup_cons] at nodup
      rw [List.forall_mem_cons] at free
      obtain ⟨middle, hrow⟩ := insert?_isSome table row free.1
      obtain ⟨table', hrows⟩ := ih middle nodup.2 (by
        intro next hnext other ho
        rcases (mem_insert? hrow other).mp ho with ho | rfl
        · exact free.2 next hnext other ho
        · intro heq
          exact nodup.1 (List.mem_map.mpr ⟨next, hnext, heq.symm⟩))
      refine ⟨table', ?_⟩
      simp [insertAll?, hrow, hrows]

end

/-- `UPDATE ... SET ... WHERE`: the keys stay. -/
def update (table : Table key) (p : α → Bool) (f : α → α) (keeps : ∀ row, key (f row) = key row) :
    Table key where
  rows := table.rows.map fun row => if p row then f row else row
  distinct := by
    rw [List.map_map]
    have same : (key ∘ fun row => if p row then f row else row) = key := by
      funext row
      simp only [Function.comp_apply]
      split
      · exact keeps row
      · rfl
    rw [same]
    exact table.distinct

theorem mem_update {table : Table key} {p : α → Bool} {f : α → α}
    {keeps : ∀ row, key (f row) = key row} {row : α} :
    row ∈ table.update p f keeps ↔
      ∃ old ∈ table, row = if p old then f old else old := by
  simp only [← mem_rows, update, List.mem_map, eq_comm]

theorem mem_update_of_neg {table : Table key} {p : α → Bool} {f : α → α}
    {keeps : ∀ row, key (f row) = key row} {row : α} (h : row ∈ table) (hp : p row = false) :
    row ∈ table.update p f keeps :=
  mem_update.mpr ⟨row, h, by simp [hp]⟩

theorem mem_update_of_pos {table : Table key} {p : α → Bool} {f : α → α}
    {keeps : ∀ row, key (f row) = key row} {row : α} (h : row ∈ table) (hp : p row = true) :
    f row ∈ table.update p f keeps :=
  mem_update.mpr ⟨row, h, by simp [hp]⟩

theorem find?_update [DecidableEq κ] {table : Table key} {p : α → Bool} {f : α → α}
    {keeps : ∀ row, key (f row) = key row} (k : κ) :
    (table.update p f keeps).find? k =
      (table.find? k).map fun row => if p row then f row else row := by
  have same : ∀ row, key (if p row then f row else row) = key row := by
    intro row
    split
    · exact keeps row
    · rfl
  simp only [find?, update, List.find?_map, Function.comp_def, same]

/-- A row in the place of the one with its key. -/
def replacing [DecidableEq κ] (row other : α) : α := if key other = key row then row else other

theorem key_replacing [DecidableEq κ] (row other : α) :
    key (@replacing _ _ key _ row other) = key other := by
  unfold replacing
  split
  · next h => exact h.symm
  · rfl

/-- `table[key] = row` of a dict: in place of the row with the key, or last. -/
def put [DecidableEq κ] (table : Table key) (row : α) : Table key :=
  (table.insert? row).getD
    (table.update (fun _ => true) (@replacing _ _ key _ row) (key_replacing row))

theorem mem_put [DecidableEq κ] {table : Table key} {row other : α} :
    other ∈ table.put row ↔ other = row ∨ other ∈ table ∧ key other ≠ key row := by
  unfold put
  cases h : table.insert? row with
  | some table' =>
      have free := (insert?_eq_some h).1
      rw [Option.getD_some, mem_insert? h, or_comm]
      exact or_congr_right ⟨fun hmem => ⟨hmem, free other hmem⟩, And.left⟩
  | none =>
      obtain ⟨taken, htaken, hkey⟩ := insert?_eq_none.mp h
      rw [Option.getD_none, mem_update]
      constructor
      · rintro ⟨old, hold, rfl⟩
        by_cases hk : key old = key row
        · exact Or.inl (by simp [replacing, hk])
        · exact Or.inr (by simp [replacing, hk, hold])
      · rintro (rfl | ⟨hmem, hne⟩)
        · exact ⟨taken, htaken, by simp [replacing, hkey]⟩
        · exact ⟨other, hmem, by simp [replacing, hne]⟩

theorem length_put [DecidableEq κ] (table : Table key) (row : α) :
    (table.put row).rows.length =
      table.rows.length + if (table.find? (key row)).isSome then 0 else 1 := by
  unfold put
  cases h : table.insert? row with
  | some table' =>
      have added := insert?_eq_some h
      rw [Option.getD_some, added.2, find?_eq_none.mpr added.1]
      simp
  | none =>
      have taken : table.find? (key row) ≠ none := by
        rw [Ne, find?_eq_none]
        obtain ⟨other, hother, hkey⟩ := insert?_eq_none.mp h
        exact fun free => free other hother hkey
      rw [Option.getD_none, if_pos (Option.isSome_iff_ne_none.mpr taken)]
      exact List.length_map _

/-- `DELETE ... WHERE`. -/
def delete (table : Table key) (p : α → Bool) : Table key where
  rows := table.rows.filter fun row => !p row
  distinct := table.distinct.sublist (List.filter_sublist.map key)

theorem mem_delete {table : Table key} {p : α → Bool} {row : α} :
    row ∈ table.delete p ↔ row ∈ table ∧ p row = false := by
  simp [← mem_rows, delete]

theorem find?_delete [DecidableEq κ] (table : Table key) (p : α → Bool) (k : κ) :
    (table.delete p).find? k = (table.find? k).filter fun row => !p row := by
  refine Option.ext fun row => ?_
  rw [find?_eq_some, mem_delete, Option.filter_eq_some_iff, find?_eq_some]
  simp only [Bool.not_eq_true']
  exact and_right_comm

theorem find?_put [DecidableEq κ] (table : Table key) (row : α) (k : κ) :
    (table.put row).find? k = if key row = k then some row else table.find? k := by
  refine Option.ext fun other => ?_
  rw [find?_eq_some, mem_put]
  split
  · next h =>
    subst h
    simp only [Option.some.injEq]
    constructor
    · rintro ⟨rfl | ⟨-, hne⟩, hkey⟩
      · rfl
      · exact absurd hkey hne
    · rintro rfl
      exact ⟨Or.inl rfl, rfl⟩
  · next h =>
    rw [find?_eq_some]
    constructor
    · rintro ⟨rfl | ⟨hmem, -⟩, hkey⟩
      · exact absurd hkey h
      · exact ⟨hmem, hkey⟩
    · rintro ⟨hmem, rfl⟩
      exact ⟨Or.inr ⟨hmem, Ne.symm h⟩, rfl⟩

/-- `SELECT * ... WHERE`. -/
def select (table : Table key) (p : α → Bool) : List α := table.rows.filter p

theorem mem_select {table : Table key} {p : α → Bool} {row : α} :
    row ∈ table.select p ↔ row ∈ table ∧ p row = true := by
  simp [← mem_rows, select]

theorem select_distinct (table : Table key) (p : α → Bool) :
    ((table.select p).map key).Nodup :=
  table.distinct.sublist (List.filter_sublist.map key)

/-- Every row is kept under its key, as it was or changed along `R`. -/
def Evolves (R : α → α → Prop) (table table' : Table key) : Prop :=
  ∀ row ∈ table, ∃ row' ∈ table', key row' = key row ∧ (row' = row ∨ R row row')

section
variable {R : α → α → Prop} {table table' : Table key}

theorem Evolves.refl (table : Table key) : table.Evolves R table :=
  fun row hrow => ⟨row, hrow, rfl, Or.inl rfl⟩

theorem Evolves.of_superset (h : ∀ row ∈ table, row ∈ table') : table.Evolves R table' :=
  fun row hrow => ⟨row, h row hrow, rfl, Or.inl rfl⟩

/-- The row under a key is the old one or a later one. -/
theorem Evolves.cases (h : table.Evolves R table') {row row' : α} (hrow : row ∈ table)
    (hrow' : row' ∈ table') (hkey : key row' = key row) : row' = row ∨ R row row' := by
  obtain ⟨other, hother, hsame, hchange⟩ := h row hrow
  rwa [table'.eq_of_key hrow' hother (hkey.trans hsame.symm)]

theorem Evolves.trans {table'' : Table key} (transitive : ∀ a b c, R a b → R b c → R a c)
    (h : table.Evolves R table') (h' : table'.Evolves R table'') : table.Evolves R table'' := by
  intro row hrow
  obtain ⟨a, ha, hkey, hchange⟩ := h row hrow
  obtain ⟨b, hb, hkey', hchange'⟩ := h' a ha
  refine ⟨b, hb, hkey'.trans hkey, ?_⟩
  rcases hchange with rfl | hlater <;> rcases hchange' with rfl | hlater'
  · exact Or.inl rfl
  · exact Or.inr hlater'
  · exact Or.inr hlater
  · exact Or.inr (transitive _ _ _ hlater hlater')

theorem Evolves.update {p : α → Bool} {f : α → α} (keeps : ∀ row, key (f row) = key row)
    (h : ∀ row ∈ table, p row = true → R row (f row)) :
    table.Evolves R (table.update p f keeps) := by
  intro row hrow
  cases hp : p row with
  | false => exact ⟨row, mem_update_of_neg hrow hp, rfl, Or.inl rfl⟩
  | true => exact ⟨f row, mem_update_of_pos hrow hp, keeps row, Or.inr (h row hrow hp)⟩

end

/-- Two tables with the same rows among those that satisfy `own`. -/
def SameOn (own : α → Prop) (table table' : Table key) : Prop :=
  ∀ row, own row → (row ∈ table ↔ row ∈ table')

/-- No row but an own one has the key. -/
def Unclaimed (own : α → Prop) (table : Table key) (k : κ) : Prop :=
  ∀ other ∈ table, key other = k → own other

namespace SameOn
variable {own : α → Prop} {a b a' b' : Table key} {p : α → Bool} {f : α → α}

theorem refl (table : Table key) : table.SameOn own table := fun _ _ => Iff.rfl

theorem symm (same : a.SameOn own b) : b.SameOn own a := fun row h => (same row h).symm

theorem trans (first : a.SameOn own a') (second : a'.SameOn own b) : a.SameOn own b :=
  fun row h => (first row h).trans (second row h)

theorem mono {own' : α → Prop} (same : a.SameOn own b) (h : ∀ row, own' row → own row) :
    a.SameOn own' b :=
  fun row hrow => same row (h row hrow)

/-- A search among the own rows, for what at most one row of each table has. -/
theorem rows_find? (same : a.SameOn own b) (owned : ∀ row, p row = true → own row)
    (uniqueA : ∀ x ∈ a, ∀ y ∈ a, p x = true → p y = true → x = y)
    (uniqueB : ∀ x ∈ b, ∀ y ∈ b, p x = true → p y = true → x = y) :
    a.rows.find? p = b.rows.find? p := by
  refine Option.ext fun row => ?_
  rw [rows_find?_eq_some uniqueA, rows_find?_eq_some uniqueB]
  exact and_congr_left fun hp => same row (owned row hp)

/-- The search for a key, among other conditions. -/
theorem rows_find?_key (same : a.SameOn own b) (k : κ)
    (owned : ∀ row, p row = true → own row ∧ key row = k) :
    a.rows.find? p = b.rows.find? p :=
  same.rows_find? (fun row hp => (owned row hp).1)
    (fun _ hx _ hy hpx hpy => a.eq_of_key hx hy ((owned _ hpx).2.trans (owned _ hpy).2.symm))
    (fun _ hx _ hy hpx hpy => b.eq_of_key hx hy ((owned _ hpx).2.trans (owned _ hpy).2.symm))

theorem find? [DecidableEq κ] (same : a.SameOn own b) {k : κ}
    (owned : ∀ row, key row = k → own row) : a.find? k = b.find? k :=
  same.rows_find?_key k fun row hp => ⟨owned row (of_decide_eq_true hp), of_decide_eq_true hp⟩

theorem select_perm (same : a.SameOn own b) (owned : ∀ row, p row = true → own row) :
    (a.select p).Perm (b.select p) := by
  refine (List.perm_ext_iff_of_nodup (select_distinct a p).of_map (select_distinct b p).of_map).mpr
    fun row => ?_
  rw [mem_select, mem_select]
  exact and_congr_left fun hp => same row (owned row hp)

theorem exists_iff (same : a.SameOn own b) {q : α → Prop} (owned : ∀ row, q row → own row) :
    (∃ row ∈ a.rows, q row) ↔ ∃ row ∈ b.rows, q row :=
  exists_congr fun row => and_congr_left fun hq => same row (owned row hq)

theorem any_eq (same : a.SameOn own b) (owned : ∀ row, p row = true → own row) :
    a.rows.any p = b.rows.any p := by
  rw [Bool.eq_iff_iff, List.any_eq_true, List.any_eq_true]
  exact same.exists_iff owned

theorem update (same : a.SameOn own b) (keeps : ∀ row, key (f row) = key row)
    (keepsOwn : ∀ row, own (f row) → own row) :
    (a.update p f keeps).SameOn own (b.update p f keeps) := by
  have half : ∀ {a b : Table key}, a.SameOn own b → ∀ row, own row →
      row ∈ a.update p f keeps → row ∈ b.update p f keeps := by
    intro a b same row hrow hmem
    obtain ⟨old, hold, rfl⟩ := mem_update.mp hmem
    refine mem_update.mpr ⟨old, (same old ?_).mp hold, rfl⟩
    split at hrow
    · exact keepsOwn old hrow
    · exact hrow
  exact fun row hrow => ⟨half same row hrow, half same.symm row hrow⟩

/-- An update of other rows. -/
theorem update_other (table : Table key) (keeps : ∀ row, key (f row) = key row)
    (others : ∀ row ∈ table, p row = true → ¬ own row ∧ ¬ own (f row)) :
    table.SameOn own (table.update p f keeps) := by
  intro row hrow
  constructor
  · intro hmem
    refine mem_update_of_neg hmem ?_
    rw [← Bool.not_eq_true]
    exact fun hp => (others row hmem hp).1 hrow
  · intro hmem
    obtain ⟨old, hold, rfl⟩ := mem_update.mp hmem
    cases hp : p old with
    | true =>
        rw [hp, if_pos rfl] at hrow
        exact absurd hrow (others old hold hp).2
    | false =>
        rw [if_neg Bool.false_ne_true]
        exact hold

theorem delete (same : a.SameOn own b) : (a.delete p).SameOn own (b.delete p) := by
  intro row hrow
  rw [mem_delete, mem_delete]
  exact and_congr_left fun _ => same row hrow

theorem delete_other (table : Table key) (others : ∀ row ∈ table, p row = true → ¬ own row) :
    table.SameOn own (table.delete p) := by
  intro row hrow
  rw [mem_delete]
  refine ⟨fun hmem => ⟨hmem, ?_⟩, And.left⟩
  rw [← Bool.not_eq_true]
  exact fun hp => others row hmem hp hrow

section
variable [DecidableEq κ] {row : α}

theorem insert?_other (h : a.insert? row = some a') (others : ¬ own row) : a.SameOn own a' := by
  intro other hother
  rw [mem_insert? h]
  refine ⟨Or.inl, fun hmem => hmem.resolve_right ?_⟩
  rintro rfl
  exact others hother

/-- Where only own rows can hold the key, both inserts succeed or neither does. -/
theorem insert? (same : a.SameOn own b) (ownedA : a.Unclaimed own (key row))
    (ownedB : b.Unclaimed own (key row)) :
    Option.Rel (SameOn own) (a.insert? row) (b.insert? row) := by
  have taken : (∃ other ∈ a, key other = key row) ↔ ∃ other ∈ b, key other = key row := by
    constructor
    · rintro ⟨other, hother, hkey⟩
      exact ⟨other, (same other (ownedA other hother hkey)).mp hother, hkey⟩
    · rintro ⟨other, hother, hkey⟩
      exact ⟨other, (same other (ownedB other hother hkey)).mpr hother, hkey⟩
  rw [← insert?_eq_none, ← insert?_eq_none] at taken
  cases hA : a.insert? row with
  | none =>
      rw [taken.mp hA]
      exact .none
  | some a' =>
      cases hB : b.insert? row with
      | none =>
          rw [taken.mpr hB] at hA
          contradiction
      | some b' =>
          refine .some fun other hother => ?_
          rw [mem_insert? hA, mem_insert? hB]
          exact or_congr_left (same other hother)

/-- Several inserts under keys that only own rows can have. -/
theorem insertAll? {rows : List α} (same : a.SameOn own b)
    (owned : ∀ row ∈ rows, ∀ other, key other = key row → own other) :
    Option.Rel (SameOn own) (a.insertAll? rows) (b.insertAll? rows) := by
  induction rows generalizing a b with
  | nil => exact .some same
  | cons row rows ih =>
      rw [List.forall_mem_cons] at owned
      have first := same.insert? (fun other _ => owned.1 other) (fun other _ => owned.1 other)
      simp only [Table.insertAll?]
      generalize a.insert? row = x, b.insert? row = y at first
      cases first with
      | none => exact .none
      | some h => exact ih h owned.2

end

end SameOn

end Table

end Tables
