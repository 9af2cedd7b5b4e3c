import SmartPlanner.Library.Hex
import SmartPlanner.Library.Sorting
import SmartPlanner.Library.Utf16
import Mathlib.Data.List.Lex

/-!
JSON texts. The writer has the choices of `json.dumps`: whether other characters
than ASCII are escaped, whether separators are followed by a space, and whether
members are sorted by key. The reader takes white space, escapes and repeated keys
as `json.loads` does; it refuses numbers with a fraction or an exponent and lone
surrogates. It reads back what the writer writes.
-/

namespace Json

open Utf16

inductive Value
  | null
  | bool (b : Bool)
  | int (n : Int)
  | str (text : List Char)
  | arr (items : List Value)
  | obj (members : List (List Char × Value))

structure Style where
  ascii : Bool
  spaced : Bool

namespace Style

/-- `(', ', ': ')` or `(',', ':')`. -/
def comma (style : Style) : List Char := if style.spaced then [',', ' '] else [',']

def colon (style : Style) : List Char := if style.spaced then [':', ' '] else [':']

end Style

/-! The writer. -/

/-- `\uXXXX` -/
def writeUnit (unit : UInt16) : List Char := '\\' :: 'u' :: Hex.text 4 unit.toNat

def escape (ascii : Bool) (c : Char) : List Char :=
  if c = '"' then ['\\', '"']
  else if c = '\\' then ['\\', '\\']
  else if c = '\n' then ['\\', 'n']
  else if c = '\r' then ['\\', 'r']
  else if c = '\t' then ['\\', 't']
  else if c = '\x0c' then ['\\', 'f']
  else if c = '\x08' then ['\\', 'b']
  else if c.toNat < 32 ∨ ascii = true ∧ 127 ≤ c.toNat then (units c).flatMap writeUnit
  else [c]

def writeText (ascii : Bool) (text : List Char) : List Char :=
  '"' :: text.flatMap (escape ascii) ++ ['"']

def writeInt : Int → List Char
  | .ofNat n => Nat.toDigits 10 n
  | .negSucc n => '-' :: Nat.toDigits 10 (n + 1)

mutual

def write (style : Style) : Value → List Char
  | .null => ['n', 'u', 'l', 'l']
  | .bool true => ['t', 'r', 'u', 'e']
  | .bool false => ['f', 'a', 'l', 's', 'e']
  | .int n => writeInt n
  | .str text => writeText style.ascii text
  | .arr items => '[' :: writeItems style items
  | .obj members => '{' :: writeMembers style members

def writeItems (style : Style) : List Value → List Char
  | [] => [']']
  | [item] => write style item ++ [']']
  | item :: items => write style item ++ style.comma ++ writeItems style items

def writeMembers (style : Style) : List (List Char × Value) → List Char
  | [] => ['}']
  | [(key, value)] => writeText style.ascii key ++ style.colon ++ write style value ++ ['}']
  | (key, value) :: members =>
      writeText style.ascii key ++ style.colon ++ write style value ++ style.comma ++
        writeMembers style members

/-- `sort_keys` -/
def sortKeys : Value → Value
  | .arr items => .arr (sortItems items)
  | .obj members => .obj (Sorting.sortBy Prod.fst (sortMembers members))
  | value => value

def sortItems : List Value → List Value
  | [] => []
  | item :: items => sortKeys item :: sortItems items

def sortMembers : List (List Char × Value) → List (List Char × Value)
  | [] => []
  | (key, value) :: members => (key, sortKeys value) :: sortMembers members

end

/-! The reader. -/

def isSpace (c : Char) : Bool := c = ' ' || c = '\t' || c = '\n' || c = '\r'

def skip (text : List Char) : List Char := text.dropWhile isSpace

/-- What an escape other than `\u` stands for. -/
def unescape? (c : Char) : Option Char :=
  if c = '"' then some '"'
  else if c = '\\' then some '\\'
  else if c = '/' then some '/'
  else if c = 'b' then some '\x08'
  else if c = 'f' then some '\x0c'
  else if c = 'n' then some '\n'
  else if c = 'r' then some '\r'
  else if c = 't' then some '\t'
  else none

/-- The units up to the closing quote, and what follows it. -/
def readUnits : List Char → Option (List UInt16 × List Char)
  | [] => none
  | '"' :: rest => some ([], rest)
  | '\\' :: 'u' :: a :: b :: c :: d :: rest =>
      (Hex.value? [a, b, c, d]).bind fun unit =>
        (readUnits rest).map fun (units, rest) => (.ofNat unit :: units, rest)
  | '\\' :: c :: rest =>
      (unescape? c).bind fun c =>
        (readUnits rest).map fun (more, rest) => (units c ++ more, rest)
  | c :: rest =>
      if c.toNat < 32 then none
      else (readUnits rest).map fun (more, rest) => (units c ++ more, rest)

/-- A string after its opening quote. -/
def readText (text : List Char) : Option (List Char × List Char) :=
  (readUnits text).bind fun (units, rest) => (toChars units).map fun chars => (chars, rest)

/-- `[-+]?\d+` -/
def exponent : List Char → Bool
  | [] => false
  | [c] => c.isDigit
  | sign :: c :: _ => sign.isDigit || ((sign = '+' || sign = '-') && c.isDigit)

/-- A fraction or an exponent follows. -/
def floats : List Char → Bool
  | [] => false
  | c :: rest => (c = '.' && rest.head?.any Char.isDigit) ||
      ((c = 'e' || c = 'E') && exponent rest)

/-- `0|[1-9]\d*` -/
def readNat : List Char → Option (Nat × List Char)
  | '0' :: rest => some (0, rest)
  | c :: rest =>
      if c.isDigit then
        some (Nat.ofDigitChars 10 (c :: rest.takeWhile Char.isDigit) 0, rest.dropWhile Char.isDigit)
      else none
  | [] => none

def readInt (text : List Char) : Option (Int × List Char) :=
  let read : Option (Int × List Char) := match text with
    | '-' :: text => (readNat text).map fun (n, rest) => (-(n : Int), rest)
    | text => (readNat text).map fun (n, rest) => ((n : Int), rest)
  read.bind fun (n, rest) => if floats rest then none else some (n, rest)

/-- `dict(pairs)`: a repeated key keeps its place and takes the last value. -/
def insertMember (members : List (List Char × Value)) (member : List Char × Value) :
    List (List Char × Value) :=
  if member.1 ∈ members.map Prod.fst then
    members.map fun other => if other.1 = member.1 then member else other
  else members ++ [member]

def dict (pairs : List (List Char × Value)) : List (List Char × Value) :=
  pairs.foldl insertMember []

mutual

def readValue : Nat → List Char → Option (Value × List Char)
  | 0, _ => none
  | fuel + 1, text =>
      match text with
      | '"' :: rest => (readText rest).map fun (text, rest) => (.str text, rest)
      | '{' :: rest =>
          match skip rest with
          | '}' :: rest => some (.obj [], rest)
          | rest => (readMembers fuel rest).map fun (pairs, rest) => (.obj (dict pairs), rest)
      | '[' :: rest =>
          match skip rest with
          | ']' :: rest => some (.arr [], rest)
          | rest => (readItems fuel rest).map fun (items, rest) => (.arr items, rest)
      | 'n' :: 'u' :: 'l' :: 'l' :: rest => some (.null, rest)
      | 't' :: 'r' :: 'u' :: 'e' :: rest => some (.bool true, rest)
      | 'f' :: 'a' :: 'l' :: 's' :: 'e' :: rest => some (.bool false, rest)
      | text => (readInt text).map fun (n, rest) => (.int n, rest)

def readItems : Nat → List Char → Option (List Value × List Char)
  | 0, _ => none
  | fuel + 1, text =>
      (readValue fuel text).bind fun (item, rest) =>
        match skip rest with
        | ']' :: rest => some ([item], rest)
        | ',' :: rest => (readItems fuel (skip rest)).map fun (items, rest) => (item :: items, rest)
        | _ => none

def readMembers : Nat → List Char → Option (List (List Char × Value) × List Char)
  | 0, _ => none
  | fuel + 1, text =>
      match text with
      | '"' :: rest =>
          (readText rest).bind fun (key, rest) =>
            match skip rest with
            | ':' :: rest =>
                (readValue fuel (skip rest)).bind fun (value, rest) =>
                  match skip rest with
                  | '}' :: rest => some ([(key, value)], rest)
                  | ',' :: rest =>
                      (readMembers fuel (skip rest)).map fun (members, rest) =>
                        ((key, value) :: members, rest)
                  | _ => none
            | _ => none
      | _ => none

end

/-- `json.loads`; a text has room for as many steps as it has characters. -/
def loads (text : List Char) : Option Value :=
  (readValue (text.length + 1) (skip text)).bind fun (value, rest) =>
    if skip rest = [] then some value else none

/-! Strings are read back. -/

theorem readUnits_writeUnit (unit : UInt16) (rest : List Char) :
    readUnits (writeUnit unit ++ rest) =
      (readUnits rest).map fun (units, rest) => (unit :: units, rest) := by
  have hvalue := Hex.value?_text 4 unit.toNat
  have hlength := @Hex.length_text 4 unit.toNat (by decide) unit.toNat_lt
  unfold writeUnit
  match hdigits : Hex.text 4 unit.toNat, hlength with
  | [a, b, c, d], _ =>
      rw [hdigits] at hvalue
      simp only [List.cons_append, List.nil_append, readUnits, hvalue, Option.bind_some]
      rw [UInt16.ofNat_toNat]

theorem readUnits_units (c : Char) (rest : List Char) :
    readUnits ((units c).flatMap writeUnit ++ rest) =
      (readUnits rest).map fun (more, rest) => (units c ++ more, rest) := by
  generalize units c = point
  induction point generalizing rest with
  | nil => simp
  | cons unit point ih =>
      rw [List.flatMap_cons, List.append_assoc, readUnits_writeUnit, ih, Option.map_map]
      rfl

theorem readUnits_escape (ascii : Bool) (c : Char) (rest : List Char) :
    readUnits (escape ascii c ++ rest) =
      (readUnits rest).map fun (more, rest) => (units c ++ more, rest) := by
  have short : ∀ escaped ∈ ['"', '\\', 'n', 'r', 't', 'f', 'b'],
      readUnits ('\\' :: escaped :: rest) = (unescape? escaped).bind fun c =>
        (readUnits rest).map fun (more, rest) => (units c ++ more, rest) := by
    intro escaped h
    simp only [List.mem_cons, List.not_mem_nil, or_false] at h
    rcases h with rfl | rfl | rfl | rfl | rfl | rfl | rfl <;> rfl
  unfold escape
  split
  · next h => rw [h]; exact short _ (by simp)
  split
  · next h => rw [h]; exact short _ (by simp)
  split
  · next h => rw [h]; exact short _ (by simp)
  split
  · next h => rw [h]; exact short _ (by simp)
  split
  · next h => rw [h]; exact short _ (by simp)
  split
  · next h => rw [h]; exact short _ (by simp)
  split
  · next h => rw [h]; exact short _ (by simp)
  split
  · exact readUnits_units c rest
  · next hquote hslash _ _ _ _ _ hplain =>
      rw [not_or] at hplain
      rw [List.singleton_append, readUnits, if_neg hplain.1]
      · exact hquote
      · rintro _ _ _ _ _ rfl _
        exact hslash rfl
      · rintro _ _ rfl _
        exact hslash rfl

theorem readText_writeText (ascii : Bool) (text rest : List Char) :
    readText (text.flatMap (escape ascii) ++ '"' :: rest) = some (text, rest) := by
  have hunits : readUnits (text.flatMap (escape ascii) ++ '"' :: rest) =
      some (ofChars text, rest) := by
    induction text with
    | nil => rfl
    | cons c text ih =>
        rw [List.flatMap_cons, List.append_assoc, readUnits_escape, ih]
        rfl
  rw [readText, hunits, Option.bind_some]
  dsimp only
  rw [toChars_ofChars, Option.map_some]

/-! Numbers are read back where nothing that could belong to them follows. -/

/-- No number goes on here. -/
def Ends : List Char → Prop
  | [] => True
  | c :: _ => c.isDigit = false ∧ c ≠ '.' ∧ c ≠ 'e' ∧ c ≠ 'E'

theorem Ends.floats {rest : List Char} (h : Ends rest) : floats rest = false := by
  cases rest with
  | nil => rfl
  | cons c rest =>
      obtain ⟨-, hpoint, hsmall, hlarge⟩ := h
      simp [Json.floats, hpoint, hsmall, hlarge]

/-- The first digit of a positive number is not zero. -/
theorem toDigits_cons {n : Nat} (pos : 0 < n) :
    ∃ c digits, Nat.toDigits 10 n = c :: digits ∧ c ≠ '0' := by
  induction n using Nat.strongRecOn with
  | ind n ih =>
      by_cases h : n < 10
      · have table : ∀ n < 10, 0 < n → Nat.digitChar n ≠ '0' := by decide
        exact ⟨_, _, Nat.toDigits_of_lt_base h, table n h pos⟩
      · obtain ⟨c, digits, hdigits, hc⟩ := ih (n / 10) (by omega) (by omega)
        refine ⟨c, digits ++ [Nat.digitChar (n % 10)], ?_, hc⟩
        rw [Nat.toDigits_of_base_le (by decide) (by omega), hdigits, List.cons_append]

theorem readNat_toDigits {n : Nat} {rest : List Char} (h : Ends rest) :
    readNat (Nat.toDigits 10 n ++ rest) = some (n, rest) := by
  rcases Nat.eq_zero_or_pos n with rfl | pos
  · rfl
  · obtain ⟨c, digits, hdigits, hc⟩ := toDigits_cons pos
    have all : ∀ d ∈ c :: digits, d.isDigit = true := by
      rw [← hdigits]
      exact fun d hd => Nat.isDigit_of_mem_toDigits (by decide) (by decide) hd
    rw [List.forall_mem_cons] at all
    have stop : rest.takeWhile Char.isDigit = [] ∧ rest.dropWhile Char.isDigit = rest := by
      cases rest with
      | nil => exact ⟨rfl, rfl⟩
      | cons d rest => simp [h.1]
    have hvalue := @Nat.ofDigitChars_ten_toDigits n
    rw [hdigits] at hvalue ⊢
    rw [List.cons_append, readNat, if_pos all.1, List.takeWhile_append_of_pos all.2,
      List.dropWhile_append_of_pos all.2, stop.1, stop.2, List.append_nil, hvalue]
    rintro rfl
    exact hc rfl

theorem readInt_writeInt {n : Int} {rest : List Char} (h : Ends rest) :
    readInt (writeInt n ++ rest) = some (n, rest) := by
  cases n with
  | ofNat n =>
      have hread := @readNat_toDigits n rest h
      rw [writeInt, readInt]
      · simp only [hread, Option.map_some, Option.bind_some, h.floats]
        rfl
      · intro more heq
        rw [heq] at hread
        contradiction
  | negSucc n =>
      rw [writeInt, List.cons_append, readInt]
      simp only [readNat_toDigits h, Option.map_some, Option.bind_some, h.floats]
      rfl

/-! Values are read back. -/

mutual

/-- The keys of each object are distinct. -/
def Valid : Value → Prop
  | .arr items => ValidItems items
  | .obj members => (members.map Prod.fst).Nodup ∧ ValidMembers members
  | _ => True

def ValidItems : List Value → Prop
  | [] => True
  | item :: items => Valid item ∧ ValidItems items

def ValidMembers : List (List Char × Value) → Prop
  | [] => True
  | (_, value) :: members => Valid value ∧ ValidMembers members

end

/-- Distinct keys are kept as they are. -/
theorem dict_eq_self {members : List (List Char × Value)} (h : (members.map Prod.fst).Nodup) :
    dict members = members := by
  have build : ∀ done : List (List Char × Value), ((done ++ members).map Prod.fst).Nodup →
      members.foldl insertMember done = done ++ members := by
    induction members with
    | nil => simp
    | cons member members ih =>
        intro done hdone
        have hnew : member.1 ∉ done.map Prod.fst := by
          rw [List.map_append, List.nodup_append] at hdone
          exact fun hmem => hdone.2.2 _ hmem _ (by simp) rfl
        rw [List.foldl_cons, insertMember, if_neg hnew]
        rw [List.map_cons, List.nodup_cons] at h
        rw [List.append_cons] at hdone
        rw [ih h.2 _ hdone, List.append_assoc, List.singleton_append]
  exact build [] h

theorem writeInt_cons (n : Int) :
    ∃ c text, writeInt n = c :: text ∧ (c.isDigit = true ∨ c = '-') := by
  cases n with
  | negSucc n => exact ⟨_, _, rfl, Or.inr rfl⟩
  | ofNat n =>
      obtain ⟨c, text, h⟩ := List.exists_cons_of_ne_nil (@Nat.toDigits_ne_nil n 10)
      have hc : c ∈ Nat.toDigits 10 n := by
        rw [h]
        exact List.mem_cons_self
      exact ⟨c, text, h, Or.inl (Nat.isDigit_of_mem_toDigits (by decide) (by decide) hc)⟩

theorem ne_of_number {c mark : Char} (h : c.isDigit = true ∨ c = '-')
    (digit : mark.isDigit = false) (minus : mark ≠ '-') : c ≠ mark := by
  rintro rfl
  rcases h with h | h
  · rw [h] at digit
    contradiction
  · exact minus h

/-- A written value starts with a character that is neither white space nor the end
of an array. -/
theorem write_cons (style : Style) (value : Value) :
    ∃ c text, write style value = c :: text ∧ isSpace c = false ∧ c ≠ ']' := by
  cases value with
  | null => exact ⟨_, _, rfl, by decide, by decide⟩
  | bool b => cases b <;> exact ⟨_, _, rfl, by decide, by decide⟩
  | int n =>
      obtain ⟨c, text, hwrite, hc⟩ := writeInt_cons n
      refine ⟨c, text, hwrite, ?_, ne_of_number hc rfl (by decide)⟩
      simp [isSpace, ne_of_number hc]
  | str text => exact ⟨_, _, rfl, by decide, by decide⟩
  | arr items => exact ⟨_, _, rfl, by decide, by decide⟩
  | obj members => exact ⟨_, _, rfl, by decide, by decide⟩

theorem skip_cons {c : Char} {text : List Char} (h : isSpace c = false) :
    skip (c :: text) = c :: text := List.dropWhile_cons_of_neg (by simp [h])

theorem skip_write (style : Style) (value : Value) (rest : List Char) :
    skip (write style value ++ rest) = write style value ++ rest := by
  obtain ⟨c, text, hwrite, hc, -⟩ := write_cons style value
  rw [hwrite, List.cons_append, skip_cons hc]

/-- After a comma or a colon. -/
theorem skip_comma (style : Style) {c : Char} {text : List Char} (h : isSpace c = false) :
    ∃ more, style.comma ++ c :: text = ',' :: more ∧ skip more = c :: text := by
  unfold Style.comma
  cases style.spaced with
  | true => exact ⟨' ' :: c :: text, rfl, skip_cons h⟩
  | false => exact ⟨c :: text, rfl, skip_cons h⟩

theorem skip_colon (style : Style) {c : Char} {text : List Char} (h : isSpace c = false) :
    ∃ more, style.colon ++ c :: text = ':' :: more ∧ skip more = c :: text := by
  unfold Style.colon
  cases style.spaced with
  | true => exact ⟨' ' :: c :: text, rfl, skip_cons h⟩
  | false => exact ⟨c :: text, rfl, skip_cons h⟩

theorem readValue_int {n : Int} {fuel : Nat} {rest : List Char} (h : Ends rest) :
    readValue (fuel + 1) (writeInt n ++ rest) = some (.int n, rest) := by
  have hread := @readInt_writeInt n rest h
  obtain ⟨c, text, hwrite, hc⟩ := writeInt_cons n
  rw [hwrite, List.cons_append] at hread ⊢
  rw [readValue]
  · rw [hread]
    rfl
  all_goals
    intro _ heq
    exact ne_of_number hc rfl (by decide) (List.cons.inj heq).1

theorem ends_comma (style : Style) (text : List Char) : Ends (style.comma ++ text) := by
  unfold Style.comma
  split <;> simp [Ends]

theorem comma_pos (style : Style) : 0 < style.comma.length := by
  unfold Style.comma
  split <;> simp

theorem writeItems_next (style : Style) (item next : Value) (items : List Value) :
    writeItems style (item :: next :: items) =
      write style item ++ style.comma ++ writeItems style (next :: items) := by
  rw [writeItems]
  exact nofun

theorem writeMembers_next (style : Style) (key : List Char) (value : Value)
    (next : List Char × Value) (members : List (List Char × Value)) :
    writeMembers style ((key, value) :: next :: members) =
      writeText style.ascii key ++ style.colon ++ write style value ++ style.comma ++
        writeMembers style (next :: members) := by
  rw [writeMembers]
  exact nofun

/-- A list of items starts as its first item does. -/
theorem writeItems_cons (style : Style) (item : Value) (items : List Value) :
    ∃ c text, writeItems style (item :: items) = c :: text ∧ isSpace c = false ∧ c ≠ ']' := by
  obtain ⟨c, text, hwrite, hspace, hne⟩ := write_cons style item
  cases items with
  | nil => exact ⟨c, text ++ [']'], by rw [writeItems, hwrite, List.cons_append], hspace, hne⟩
  | cons next items =>
      refine ⟨c, text ++ style.comma ++ writeItems style (next :: items), ?_, hspace, hne⟩
      rw [writeItems_next, hwrite, List.cons_append, List.cons_append]

theorem writeMembers_cons (style : Style) (member : List Char × Value)
    (members : List (List Char × Value)) :
    ∃ text, writeMembers style (member :: members) = '"' :: text := by
  cases members with
  | nil => exact ⟨_, rfl⟩
  | cons next members => exact ⟨_, rfl⟩

/-- A member after the quote of its key. -/
theorem readMembers_key (style : Style) {key : List Char} {value : Value} {fuel : Nat}
    {rest : List Char}
    (h : readValue fuel (write style value ++ rest) = some (value, rest)) :
    readMembers (fuel + 1)
        (writeText style.ascii key ++ style.colon ++ write style value ++ rest) =
      match skip rest with
      | '}' :: rest => some ([(key, value)], rest)
      | ',' :: rest => (readMembers fuel (skip rest)).map fun (members, rest) =>
          ((key, value) :: members, rest)
      | _ => none := by
  obtain ⟨c, text, hwrite, hspace, -⟩ := write_cons style value
  obtain ⟨more, hcolon, hmore⟩ := @skip_colon style c (text ++ rest) hspace
  rw [← List.cons_append, ← hwrite] at hcolon hmore
  have hkey := readText_writeText style.ascii key (style.colon ++ (write style value ++ rest))
  simp only [writeText, List.cons_append, List.append_assoc, List.nil_append, readMembers, hkey,
    Option.bind_some]
  have hstart : skip (':' :: more) = ':' :: more := skip_cons rfl
  simp only [hcolon, hstart, hmore, h, Option.bind_some]

mutual

/-- The reader gives back what was written, if nothing that could belong to a number
follows. -/
theorem readValue_write (style : Style) : ∀ (value : Value) {fuel : Nat} {rest : List Char},
    Valid value → (write style value).length ≤ fuel → Ends rest →
      readValue fuel (write style value ++ rest) = some (value, rest)
  | .null, fuel + 1, rest, _, _, _ => rfl
  | .bool true, fuel + 1, rest, _, _, _ => rfl
  | .bool false, fuel + 1, rest, _, _, _ => rfl
  | .int n, fuel, rest, _, hfuel, hends => by
      obtain ⟨c, text, hwrite, -⟩ := writeInt_cons n
      rw [write, hwrite, List.length_cons] at hfuel
      obtain ⟨fuel, rfl⟩ := Nat.exists_eq_add_of_le' (Nat.le_of_add_left_le hfuel)
      exact readValue_int hends
  | .str text, fuel + 1, rest, _, _, _ => by
      have hread := readText_writeText style.ascii text rest
      simp only [write, writeText, List.cons_append, List.append_assoc, readValue,
        List.nil_append, hread]
      rfl
  | .arr [], fuel + 1, rest, _, _, _ => rfl
  | .arr (item :: items), fuel + 1, rest, hvalid, hfuel, _ => by
      rw [write, List.length_cons] at hfuel
      have hread := @readItems_write style (item :: items) _ rest (by simp) hvalid
        (Nat.le_of_succ_le_succ hfuel)
      obtain ⟨c, text, hwrite, hspace, hne⟩ := writeItems_cons style item items
      rw [hwrite, List.cons_append] at hread
      rw [write, List.cons_append, readValue, hwrite, List.cons_append, skip_cons hspace]
      split
      · next heq => exact absurd (List.cons.inj heq).1 hne
      · rw [hread]
        rfl
  | .obj [], fuel + 1, rest, _, _, _ => rfl
  | .obj (member :: members), fuel + 1, rest, hvalid, hfuel, _ => by
      rw [write, List.length_cons] at hfuel
      have hread := @readMembers_write style (member :: members) _ rest (by simp) hvalid.2
        (Nat.le_of_succ_le_succ hfuel)
      obtain ⟨text, hwrite⟩ := writeMembers_cons style member members
      rw [hwrite, List.cons_append] at hread
      have hstart : skip ('"' :: (text ++ rest)) = '"' :: (text ++ rest) := skip_cons rfl
      rw [write, List.cons_append, readValue, hwrite, List.cons_append, hstart]
      split
      · next heq => exact absurd (List.cons.inj heq).1 (by decide)
      · simp only [hread, Option.map_some, dict_eq_self hvalid.1]

theorem readItems_write (style : Style) : ∀ (items : List Value) {fuel : Nat} {rest : List Char},
    items ≠ [] → ValidItems items → (writeItems style items).length ≤ fuel →
      readItems fuel (writeItems style items ++ rest) = some (items, rest)
  | [], _, _, hne, _, _ => absurd rfl hne
  | [item], fuel, rest, _, hvalid, hfuel => by
      rw [writeItems, List.length_append, List.length_singleton] at hfuel
      obtain ⟨fuel, rfl⟩ := Nat.exists_eq_add_of_le' (Nat.le_of_add_left_le hfuel)
      have hread := @readValue_write style item _ (']' :: rest) hvalid.1
        (Nat.le_of_succ_le_succ hfuel) (by simp [Ends])
      rw [writeItems, List.append_assoc, List.singleton_append, readItems, hread]
      rfl
  | item :: next :: items, fuel, rest, _, hvalid, hfuel => by
      obtain ⟨c, text, hwrite, hspace, -⟩ := writeItems_cons style next items
      obtain ⟨more, hcomma, hmore⟩ := @skip_comma style c (text ++ rest) hspace
      rw [writeItems_next, List.length_append, List.length_append] at hfuel
      have hpos := comma_pos style
      obtain ⟨fuel, rfl⟩ := Nat.exists_eq_add_of_le' (show 1 ≤ fuel by omega)
      have hread := @readValue_write style item _
        (style.comma ++ (writeItems style (next :: items) ++ rest)) hvalid.1
        (show _ ≤ fuel by omega) (ends_comma style _)
      have hrest := @readItems_write style (next :: items) _ rest (by simp) hvalid.2
        (show _ ≤ fuel by omega)
      rw [hwrite, List.cons_append] at hrest
      rw [hwrite, List.cons_append, hcomma] at hread
      rw [writeItems_next, List.append_assoc, List.append_assoc, hwrite, List.cons_append, hcomma,
        readItems, hread, Option.bind_some]
      have hstart : skip (',' :: more) = ',' :: more := skip_cons rfl
      simp only [hstart, hmore, hrest, Option.map_some]

theorem readMembers_write (style : Style) : ∀ (members : List (List Char × Value)) {fuel : Nat}
    {rest : List Char}, members ≠ [] → ValidMembers members →
      (writeMembers style members).length ≤ fuel →
      readMembers fuel (writeMembers style members ++ rest) = some (members, rest)
  | [], _, _, hne, _, _ => absurd rfl hne
  | [(key, value)], fuel, rest, _, hvalid, hfuel => by
      rw [writeMembers, List.length_append, List.length_append, List.length_singleton] at hfuel
      obtain ⟨fuel, rfl⟩ := Nat.exists_eq_add_of_le' (show 1 ≤ fuel by omega)
      have hread := @readValue_write style value _ ('}' :: rest) hvalid.1
        (show _ ≤ fuel by omega) (by simp [Ends])
      rw [writeMembers, List.append_assoc, List.singleton_append, readMembers_key style hread]
      rfl
  | (key, value) :: next :: members, fuel, rest, _, hvalid, hfuel => by
      obtain ⟨text, hwrite⟩ := writeMembers_cons style next members
      obtain ⟨more, hcomma, hmore⟩ := @skip_comma style '"' (text ++ rest) rfl
      rw [writeMembers_next, List.length_append, List.length_append, List.length_append] at hfuel
      have hpos := comma_pos style
      obtain ⟨fuel, rfl⟩ := Nat.exists_eq_add_of_le' (show 1 ≤ fuel by omega)
      have hread := @readValue_write style value _
        (style.comma ++ (writeMembers style (next :: members) ++ rest)) hvalid.1
        (show _ ≤ fuel by omega) (ends_comma style _)
      have hrest := @readMembers_write style (next :: members) _ rest (by simp) hvalid.2
        (show _ ≤ fuel by omega)
      rw [hwrite, List.cons_append] at hrest
      rw [hwrite, List.cons_append, hcomma] at hread
      rw [writeMembers_next, List.append_assoc, List.append_assoc, hwrite, List.cons_append, hcomma,
        readMembers_key style hread]
      have hstart : skip (',' :: more) = ',' :: more := skip_cons rfl
      simp only [hstart, hmore, hrest, Option.map_some]

end

/-- `json.loads` gives back what `json.dumps` wrote. -/
theorem loads_write (style : Style) {value : Value} (valid : Valid value) :
    loads (write style value) = some value := by
  have hskip := skip_write style value []
  have hread := @readValue_write style value _ [] valid
    (Nat.le_succ (write style value).length) trivial
  rw [List.append_nil] at hskip hread
  rw [loads, hskip, hread]
  rfl

theorem write_injective (style : Style) {a b : Value} (ha : Valid a) (hb : Valid b)
    (h : write style a = write style b) : a = b := by
  have hread := loads_write style ha
  rw [h, loads_write style hb, Option.some.injEq] at hread
  exact hread.symm

/-! Sorting the keys keeps what an object says. -/

@[simp] theorem sortKeys_null : sortKeys .null = .null := rfl

@[simp] theorem sortKeys_bool (b : Bool) : sortKeys (.bool b) = .bool b := rfl

@[simp] theorem sortKeys_int (n : Int) : sortKeys (.int n) = .int n := rfl

@[simp] theorem sortKeys_str (text : List Char) : sortKeys (.str text) = .str text := rfl

theorem sortItems_eq (items : List Value) : sortItems items = items.map sortKeys := by
  induction items with
  | nil => rfl
  | cons item items ih => rw [sortItems, ih, List.map_cons]

theorem sortMembers_eq (members : List (List Char × Value)) :
    sortMembers members = members.map fun member => (member.1, sortKeys member.2) := by
  induction members with
  | nil => rfl
  | cons member members ih => rw [sortMembers, ih, List.map_cons]

theorem sortMembers_perm {members : List (List Char × Value)} :
    (Sorting.sortBy Prod.fst (sortMembers members)).Perm
      (members.map fun member => (member.1, sortKeys member.2)) := by
  rw [sortMembers_eq]
  exact Sorting.sortBy_perm _ _

theorem validItems_iff {items : List Value} : ValidItems items ↔ ∀ item ∈ items, Valid item := by
  induction items with
  | nil => simp [ValidItems]
  | cons item items ih => rw [ValidItems, ih, List.forall_mem_cons]

theorem validMembers_iff {members : List (List Char × Value)} :
    ValidMembers members ↔ ∀ member ∈ members, Valid member.2 := by
  induction members with
  | nil => simp [ValidMembers]
  | cons member members ih => rw [ValidMembers, ih, List.forall_mem_cons]

mutual

theorem valid_sortKeys : ∀ {value : Value}, Valid value → Valid (sortKeys value)
  | .null, _ => trivial
  | .bool _, _ => trivial
  | .int _, _ => trivial
  | .str _, _ => trivial
  | .arr _, h => validItems_sort h
  | .obj members, h => by
      refine ⟨?_, validMembers_iff.mpr fun member hmember => ?_⟩
      · rw [(sortMembers_perm.map Prod.fst).nodup_iff, List.map_map]
        exact h.1
      · exact validMembers_iff.mp (validMembers_sort h.2) member (Sorting.mem_sortBy.mp hmember)

theorem validItems_sort : ∀ {items : List Value}, ValidItems items → ValidItems (sortItems items)
  | [], _ => trivial
  | _ :: _, h => ⟨valid_sortKeys h.1, validItems_sort h.2⟩

theorem validMembers_sort : ∀ {members : List (List Char × Value)}, ValidMembers members →
    ValidMembers (sortMembers members)
  | [], _ => trivial
  | _ :: _, h => ⟨valid_sortKeys h.1, validMembers_sort h.2⟩

end

/-- Objects that agree up to the order of their members. -/
theorem members_perm {members members' : List (List Char × Value)}
    (h : sortKeys (.obj members) = sortKeys (.obj members')) :
    (members.map fun member => (member.1, sortKeys member.2)).Perm
      (members'.map fun member => (member.1, sortKeys member.2)) := by
  rw [sortKeys, sortKeys, Value.obj.injEq] at h
  have hperm := @sortMembers_perm members
  rw [h] at hperm
  exact hperm.symm.trans sortMembers_perm

/-- A way to put values of a type into JSON such that the text with sorted keys
tells them apart. -/
structure Canonical {α : Type} (dump : α → Value) : Prop where
  valid : ∀ a, Valid (dump a)
  injective : ∀ {a b}, sortKeys (dump a) = sortKeys (dump b) → a = b

section
variable {α β : Type} {dump : α → Value}

theorem Canonical.text_iff (canonical : Canonical dump) (style : Style) {a b : α} :
    write style (sortKeys (dump a)) = write style (sortKeys (dump b)) ↔ a = b := by
  constructor
  · intro h
    exact canonical.injective (write_injective style (valid_sortKeys (canonical.valid a))
      (valid_sortKeys (canonical.valid b)) h)
  · rintro rfl
    rfl

theorem canonical_str {text : α → List Char} (h : ∀ {a b}, text a = text b → a = b) :
    Canonical fun a => .str (text a) :=
  ⟨fun _ => trivial, fun heq => h (Value.str.inj heq)⟩

theorem Canonical.comp (canonical : Canonical dump) {f : β → α}
    (h : ∀ {a b}, f a = f b → a = b) : Canonical fun b => dump (f b) :=
  ⟨fun b => canonical.valid (f b), fun heq => h (canonical.injective heq)⟩

/-- `None` is told apart from a value. -/
theorem optional_injective {P : α → Prop} (null : ∀ a, sortKeys (dump a) ≠ .null)
    (injective : ∀ {a b}, P a → P b → sortKeys (dump a) = sortKeys (dump b) → a = b)
    {a b : Option α} (ha : ∀ x ∈ a, P x) (hb : ∀ x ∈ b, P x)
    (h : sortKeys (a.elim .null dump) = sortKeys (b.elim .null dump)) : a = b := by
  cases a <;> cases b
  · rfl
  · exact absurd h.symm (null _)
  · exact absurd h (null _)
  · exact congrArg some (injective (ha _ rfl) (hb _ rfl) h)

theorem optional_valid (h : ∀ a, Valid (dump a)) (a : Option α) : Valid (a.elim .null dump) := by
  cases a with
  | none => trivial
  | some a => exact h a

theorem Canonical.list (canonical : Canonical dump) :
    Canonical fun values : List α => .arr (values.map dump) where
  valid values := validItems_iff.mpr fun item hitem => by
    obtain ⟨a, -, rfl⟩ := List.mem_map.mp hitem
    exact canonical.valid a
  injective := by
    intro xs ys heq
    rw [sortKeys, sortKeys, sortItems_eq, sortItems_eq, List.map_map, List.map_map,
      Value.arr.injEq] at heq
    exact List.map_injective_iff.mpr (fun _ _ => canonical.injective) heq

end

/-! Records. -/

/-- An object with named members. -/
def record (members : List (String × Value)) : Value :=
  .obj (members.map fun member => (member.1.toList, member.2))

theorem names_nodup {members : List (String × Value)} (h : (members.map Prod.fst).Nodup) :
    ((members.map fun member => (member.1.toList, member.2)).map Prod.fst).Nodup := by
  have hmap := h.map fun _ _ heq => String.toList_inj.mp heq
  rw [List.map_map] at hmap ⊢
  exact hmap

theorem valid_record {members : List (String × Value)} (names : (members.map Prod.fst).Nodup)
    (values : ∀ member ∈ members, Valid member.2) : Valid (record members) := by
  refine ⟨names_nodup names, validMembers_iff.mpr fun member hmember => ?_⟩
  obtain ⟨named, hnamed, rfl⟩ := List.mem_map.mp hmember
  exact values named hnamed

/-- Lists with the same distinct keys in the same order are permutations of each
other only if they are equal. -/
theorem eq_of_perm_of_keys {κ β : Type} {xs ys : List (κ × β)} (perm : xs.Perm ys)
    (keys : xs.map Prod.fst = ys.map Prod.fst) (distinct : (xs.map Prod.fst).Nodup) : xs = ys := by
  induction xs generalizing ys with
  | nil => exact (List.nil_perm.mp perm).symm
  | cons x xs ih =>
      cases ys with
      | nil => contradiction
      | cons y ys =>
          rw [List.map_cons, List.map_cons, List.cons.injEq] at keys
          rw [List.map_cons, List.nodup_cons] at distinct
          have hx : x = y := by
            rcases List.mem_cons.mp (perm.mem_iff.mp List.mem_cons_self) with h | h
            · exact h
            · exact absurd (keys.2 ▸ List.mem_map_of_mem h) distinct.1
          subst hx
          rw [ih (List.perm_cons _ |>.mp perm) keys.2 distinct.2]

/-- Records with the same names agree in every member. -/
theorem record_injective {members members' : List (String × Value)}
    (h : sortKeys (record members) = sortKeys (record members'))
    (same : members.map Prod.fst = members'.map Prod.fst)
    (names : (members.map Prod.fst).Nodup) :
    members.map (fun member => sortKeys member.2) =
      members'.map fun member => sortKeys member.2 := by
  have hperm := members_perm h
  rw [List.map_map, List.map_map] at hperm
  have keys := congrArg (List.map String.toList) same
  have distinct := names_nodup names
  rw [List.map_map, List.map_map] at keys
  rw [List.map_map] at distinct
  have hequal := congrArg (List.map Prod.snd) (eq_of_perm_of_keys hperm
    (by rw [List.map_map, List.map_map]; exact keys) (by rw [List.map_map]; exact distinct))
  rw [List.map_map, List.map_map] at hequal
  exact hequal

/-! Reading records. -/

/-- The members of an object that has no name beyond these. -/
def members? (names : List String) : Value → Option (List (List Char × Value))
  | .obj members =>
      if ∀ member ∈ members, member.1 ∈ names.map String.toList then some members else none
  | _ => none

/-- A required member. -/
def field? {α : Type} (read : Value → Option α) (members : List (List Char × Value))
    (name : String) : Option α := (members.lookup name.toList).bind read

/-- A member with a default. -/
def fieldOr? {α : Type} (default : α) (read : Value → Option α)
    (members : List (List Char × Value)) (name : String) : Option α :=
  (members.lookup name.toList).elim (some default) read

def items? {α : Type} (read : Value → Option α) : Value → Option (List α)
  | .arr items => items.mapM read
  | _ => none

/-- The members of a dictionary, its keys read as well. -/
def entries? {κ α : Type} (key : List Char → Option κ) (read : Value → Option α) :
    Value → Option (List (κ × α))
  | .obj members => members.mapM fun member =>
      (key member.1).bind fun k => (read member.2).map fun a => (k, a)
  | _ => none

theorem members?_record {names : List String} {members : List (String × Value)}
    (known : ∀ member ∈ members, member.1 ∈ names) :
    members? names (record members) =
      some (members.map fun member => (member.1.toList, member.2)) := by
  unfold members? record
  refine if_pos fun member hmember => ?_
  obtain ⟨named, hnamed, rfl⟩ := List.mem_map.mp hmember
  exact List.mem_map_of_mem (known named hnamed)

theorem lookup_record (members : List (String × Value)) (name : String) :
    (members.map fun member => (member.1.toList, member.2)).lookup name.toList =
      members.lookup name := by
  induction members with
  | nil => rfl
  | cons member members ih =>
      rw [List.map_cons, List.lookup_cons, List.lookup_cons, ih]
      by_cases h : name = member.1
      · simp [h]
      · have h' : name.toList ≠ member.1.toList := fun heq => h (String.toList_inj.mp heq)
        rw [beq_false_of_ne h, beq_false_of_ne h']

section
variable {α : Type} (read : Value → Option α) (members : List (String × Value)) (name : String)

@[simp] theorem field?_record :
    field? read (members.map fun member => (member.1.toList, member.2)) name =
      (members.lookup name).bind read := by
  rw [field?, lookup_record]

@[simp] theorem fieldOr?_record (default : α) :
    fieldOr? default read (members.map fun member => (member.1.toList, member.2)) name =
      (members.lookup name).elim (some default) read := by
  rw [fieldOr?, lookup_record]

end

theorem mapM_map_some {α β : Type} {write : α → β} {read : β → Option α} {xs : List α}
    (h : ∀ x ∈ xs, read (write x) = some x) : (xs.map write).mapM read = some xs := by
  induction xs with
  | nil => rfl
  | cons x xs ih =>
      rw [List.forall_mem_cons] at h
      rw [List.map_cons, List.mapM_cons, h.1, ih h.2]
      rfl

theorem items?_map {α : Type} {dump : α → Value} {read : Value → Option α} {xs : List α}
    (h : ∀ x ∈ xs, read (dump x) = some x) : items? read (.arr (xs.map dump)) = some xs :=
  mapM_map_some h

theorem entries?_map {κ α : Type} {text : κ → List Char} {key : List Char → Option κ}
    {dump : α → Value} {read : Value → Option α} {xs : List (κ × α)}
    (h : ∀ x ∈ xs, key (text x.1) = some x.1 ∧ read (dump x.2) = some x.2) :
    entries? key read (.obj (xs.map fun x => (text x.1, dump x.2))) = some xs :=
  mapM_map_some fun x hx => by rw [(h x hx).1, (h x hx).2]; rfl

end Json
