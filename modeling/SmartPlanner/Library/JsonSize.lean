import SmartPlanner.Library.Decimal
import SmartPlanner.Library.Json
import Mathlib.Algebra.Order.BigOperators.Group.List
import Mathlib.Algebra.Order.Ring.Nat

/-!
How long a JSON text can be. A bound for a value follows from bounds for its parts:
a character takes at most six in an escape when only control characters are
escaped, and one that needs no escape takes itself.
-/

namespace Json

variable {style : Style} {bound : Nat}

/-- The text of the value has at most so many characters. -/
def Sized (style : Style) (bound : Nat) (value : Value) : Prop :=
  (write style value).length ≤ bound

instance (value : Value) : Decidable (Sized style bound value) :=
  inferInstanceAs (Decidable (_ ≤ _))

/-- A character that is written as it is. -/
def Unescaped (c : Char) : Prop := c ≠ '"' ∧ c ≠ '\\' ∧ 32 ≤ c.toNat ∧ c.toNat < 127

instance (c : Char) : Decidable (Unescaped c) := inferInstanceAs (Decidable (_ ∧ _))

theorem Sized.mono {value : Value} {wider : Nat} (h : Sized style bound value)
    (le : bound ≤ wider) : Sized style wider value :=
  Nat.le_trans h le

theorem escape_unescaped {ascii : Bool} {c : Char} (unescaped : Unescaped c) :
    escape ascii c = [c] := by
  obtain ⟨hquote, hslash, hlow, hhigh⟩ := unescaped
  have control : ∀ d : Char, d.toNat < 32 → c ≠ d := by
    rintro d hd rfl
    omega
  unfold escape
  rw [if_neg hquote, if_neg hslash, if_neg (control '\n' (by decide)),
    if_neg (control '\r' (by decide)), if_neg (control '\t' (by decide)),
    if_neg (control '\x0c' (by decide)), if_neg (control '\x08' (by decide)), if_neg (by omega)]

theorem length_writeUnit (unit : UInt16) : (writeUnit unit).length = 6 := by
  unfold writeUnit
  rw [List.length_cons, List.length_cons, Hex.length_text (by decide) unit.toNat_lt]

theorem length_escape_le (c : Char) : (escape false c).length ≤ 6 := by
  have short : ∀ d : Char, ['\\', d].length ≤ 6 := fun _ => (by decide : 2 ≤ 6)
  unfold escape
  split_ifs with _ _ _ _ _ _ _ control
  · exact short _
  · exact short _
  · exact short _
  · exact short _
  · exact short _
  · exact short _
  · exact short _
  · have low : c.toNat < 0x10000 := by
      simp only [false_and, or_false] at control
      omega
    rw [Utf16.units_of_lt low, List.flatMap_singleton, length_writeUnit]
  · exact Nat.le_add_left 1 5

theorem length_writeText_unescaped {ascii : Bool} {text : List Char}
    (unescaped : ∀ c ∈ text, Unescaped c) :
    (writeText ascii text).length = text.length + 2 := by
  have same : text.flatMap (escape ascii) = text := by
    induction text with
    | nil => rfl
    | cons c text ih =>
        rw [List.forall_mem_cons] at unescaped
        rw [List.flatMap_cons, escape_unescaped unescaped.1, ih unescaped.2, List.singleton_append]
  unfold writeText
  rw [same, List.cons_append, List.length_cons, List.length_append, List.length_singleton]

theorem length_writeText_le (text : List Char) :
    (writeText false text).length ≤ 6 * text.length + 2 := by
  have escaped : (text.flatMap (escape false)).length ≤ 6 * text.length := by
    induction text with
    | nil => exact Nat.le_refl 0
    | cons c text ih =>
        have hc := length_escape_le c
        rw [List.flatMap_cons, List.length_append, List.length_cons]
        omega
  unfold writeText
  rw [List.cons_append, List.length_cons, List.length_append, List.length_singleton]
  omega

theorem length_writeItems_le (style : Style) (items : List Value) :
    (writeItems style items).length ≤
      (items.map fun item => (write style item).length + style.comma.length).sum + 1 := by
  induction items with
  | nil => exact Nat.le_refl 1
  | cons item items ih =>
      cases items with
      | nil =>
          rw [writeItems, List.length_append, List.length_singleton, List.map_singleton,
            List.sum_singleton]
          omega
      | cons next rest =>
          rw [writeItems, List.length_append, List.length_append, List.map_cons, List.sum_cons]
          omega
          nofun

/-- What a member takes with the separators around it. -/
def memberSize (style : Style) (key : List Char) (bound : Nat) : Nat :=
  (writeText style.ascii key).length + style.colon.length + bound + style.comma.length

theorem length_writeMembers_le (style : Style) (members : List (List Char × Value)) :
    (writeMembers style members).length ≤
      (members.map fun member => memberSize style member.1 (write style member.2).length).sum +
        1 := by
  unfold memberSize
  induction members with
  | nil => exact Nat.le_refl 1
  | cons member members ih =>
      cases members with
      | nil =>
          rw [writeMembers, List.length_append, List.length_append, List.length_append,
            List.length_singleton, List.map_singleton, List.sum_singleton]
          omega
      | cons next rest =>
          rw [writeMembers, List.length_append, List.length_append, List.length_append,
            List.length_append, List.map_cons, List.sum_cons]
          omega
          nofun

theorem sized_text {text : List Char} (h : style.ascii = false) :
    Sized style (6 * text.length + 2) (.str text) := by
  unfold Sized write
  rw [h]
  exact length_writeText_le text

theorem sized_unescaped {text : List Char} (unescaped : ∀ c ∈ text, Unescaped c) :
    Sized style (text.length + 2) (.str text) :=
  Nat.le_of_eq (length_writeText_unescaped unescaped)

theorem sized_bool (b : Bool) : Sized style 5 (.bool b) := by
  cases b with
  | true => exact Nat.le_succ 4
  | false => exact Nat.le_refl 5

theorem sized_nat {n digits : Nat} (pos : 0 < digits) (h : n < 10 ^ digits) :
    Sized style digits (.int n) :=
  (Nat.length_toDigits_le_iff (by decide) pos).mpr h

theorem sum_map_le {α : Type} {xs : List α} {size : α → Nat} (h : ∀ x ∈ xs, size x ≤ bound) :
    (xs.map size).sum ≤ xs.length * bound := by
  rw [← List.length_map size]
  exact List.sum_le_card_nsmul _ _ (List.forall_mem_map.mpr h)

/-- At most so many items of one size. -/
theorem sized_arr {α : Type} {xs : List α} {item : α → Value} {count : Nat}
    (few : xs.length ≤ count) (h : ∀ x ∈ xs, Sized style bound (item x)) :
    Sized style (count * (bound + style.comma.length) + 2) (.arr (xs.map item)) := by
  have written := length_writeItems_le style (xs.map item)
  have each : ((xs.map item).map fun item => (write style item).length + style.comma.length).sum ≤
      xs.length * (bound + style.comma.length) := by
    rw [List.map_map]
    exact sum_map_le fun x hx => Nat.add_le_add_right (h x hx) _
  have all := Nat.mul_le_mul_right (bound + style.comma.length) few
  unfold Sized
  rw [write, List.length_cons]
  omega

theorem memberSize_mono (style : Style) (key : List Char) {size : Nat} (h : size ≤ bound) :
    memberSize style key size ≤ memberSize style key bound :=
  Nat.add_le_add_right (Nat.add_le_add_left h _) _

/-- At most so many members of one size, under keys of one size. -/
theorem sized_obj {α : Type} {xs : List α} {key : α → List Char} {value : α → Value}
    {count size : Nat} (few : xs.length ≤ count)
    (keys : ∀ x ∈ xs, (writeText style.ascii (key x)).length ≤ size)
    (h : ∀ x ∈ xs, Sized style bound (value x)) :
    Sized style (count * (size + style.colon.length + bound + style.comma.length) + 2)
      (.obj (xs.map fun x => (key x, value x))) := by
  have written := length_writeMembers_le style (xs.map fun x => (key x, value x))
  have each : ((xs.map fun x => (key x, value x)).map fun member =>
      memberSize style member.1 (write style member.2).length).sum ≤
        xs.length * (size + style.colon.length + bound + style.comma.length) := by
    rw [List.map_map]
    refine sum_map_le fun x hx => ?_
    have hkey := keys x hx
    have hvalue := h x hx
    unfold Sized at hvalue
    simp only [Function.comp_apply, memberSize]
    omega
  have all := Nat.mul_le_mul_right (size + style.colon.length + bound + style.comma.length) few
  unfold Sized
  rw [write, List.length_cons]
  omega

/-- What a record of these names takes, for these bounds of its members. -/
def recordSize (style : Style) (names : List String) (bounds : List Nat) : Nat :=
  (List.zipWith (fun name => memberSize style name.toList) names bounds).sum + 2

theorem sized_record {members : List (String × Value)} (names : List String)
    {bounds : List Nat} (named : members.map Prod.fst = names)
    (h : List.Forall₂ (fun member bound => Sized style bound member.2) members bounds) :
    Sized style (recordSize style names bounds) (record members) := by
  subst named
  have each : (members.map fun member =>
      memberSize style member.1.toList (write style member.2).length).sum + 2 ≤
        recordSize style (members.map Prod.fst) bounds := by
    unfold recordSize
    induction h with
    | nil => exact Nat.le_refl 2
    | @cons member bound _ _ hmember _ ih =>
        have hsize := memberSize_mono style member.1.toList hmember
        rw [List.map_cons, List.map_cons, List.zipWith_cons_cons, List.sum_cons, List.sum_cons]
        omega
  have written := length_writeMembers_le style
    (members.map fun member => (member.1.toList, member.2))
  rw [List.map_map] at written
  unfold Sized record
  rw [write, List.length_cons]
  exact Nat.le_trans (Nat.succ_le_succ written) each

end Json
