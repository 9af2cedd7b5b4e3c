import Mathlib.Data.List.Basic

/-!
Comma-separated values as in RFC 4180: a reader, and the writer that puts every
field in quotes. Whatever the fields hold, the reader gives them back.
-/

namespace Csv

universe u
variable {α : Type u}

/-- The symbols with a meaning of their own. -/
structure Marks (α : Type u) where
  quote : α
  comma : α
  cr : α
  lf : α
  distinct : [quote, comma, cr, lf].Nodup

theorem Marks.ne (marks : Marks α) :
    marks.quote ≠ marks.comma ∧ marks.quote ≠ marks.cr ∧ marks.cr ≠ marks.comma := by
  have distinct := marks.distinct
  simp only [List.nodup_cons, List.mem_cons, not_or] at distinct
  exact ⟨distinct.1.1, distinct.1.2.1, Ne.symm distinct.2.1.1⟩

/-- Where the reader stands: before a field, in a field without quotes, inside
quotes, after a quote that may close them, and after the CR of a line end. -/
inductive Mode
  | start | bare | quoted | closing | ended
deriving DecidableEq

section
variable [DecidableEq α] (marks : Marks α)

/-- The records of a text, after a part of the current field and the earlier
fields of the current record; none when the text is not well formed. -/
def parseFrom (mode : Mode) (field : List α) (record : List (List α)) :
    List α → Option (List (List (List α)))
  | [] =>
      match mode with
      | .start => if record = [] then some [] else some [record ++ [[]]]
      | .bare | .closing => some [record ++ [field]]
      | .quoted | .ended => none
  | x :: text =>
      match mode with
      | .quoted =>
          if x = marks.quote then parseFrom .closing field record text
          else parseFrom .quoted (field ++ [x]) record text
      | .ended =>
          if x = marks.lf then (parseFrom .start [] [] text).map (record :: ·) else none
      | mode =>
          if x = marks.comma then parseFrom .start [] (record ++ [field]) text
          else if x = marks.cr then parseFrom .ended [] (record ++ [field]) text
          else if x = marks.quote then
            -- A field opens its quotes at its start; within them two stand for one.
            match mode with
            | .start => parseFrom .quoted [] record text
            | .closing => parseFrom .quoted (field ++ [x]) record text
            | _ => none
          else if x = marks.lf ∨ mode = .closing then none
          else parseFrom .bare (field ++ [x]) record text

def parse (text : List α) : Option (List (List (List α))) := parseFrom marks .start [] [] text

/-- A field between quotes, its own quotes doubled. -/
def writeField (field : List α) : List α :=
  marks.quote ::
    field.flatMap (fun x => if x = marks.quote then [marks.quote, marks.quote] else [x]) ++
      [marks.quote]

def writeRecord (fields : List (List α)) : List α :=
  [marks.comma].intercalate (fields.map (writeField marks))

def write (records : List (List (List α))) : List α :=
  [marks.cr, marks.lf].intercalate (records.map (writeRecord marks)) ++ [marks.cr, marks.lf]

variable {marks} {record fields : List (List α)}

/-- The quotes that a field has doubled do not close it. -/
theorem parseFrom_inside (field more rest : List α) :
    parseFrom marks .quoted field record
        (more.flatMap (fun x => if x = marks.quote then [marks.quote, marks.quote] else [x]) ++
          marks.quote :: rest) =
      parseFrom marks .closing (field ++ more) record rest := by
  obtain ⟨comma, cr, -⟩ := marks.ne
  induction more generalizing field with
  | nil => simp [parseFrom]
  | cons x more ih =>
      by_cases hx : x = marks.quote
      · simp [parseFrom, hx, comma, cr, ih]
      · simp [parseFrom, hx, ih]

theorem parseFrom_field (field rest : List α) :
    parseFrom marks .start [] record (writeField marks field ++ rest) =
      parseFrom marks .closing field record rest := by
  obtain ⟨comma, cr, -⟩ := marks.ne
  have inside := @parseFrom_inside _ _ marks record [] field rest
  simpa [writeField, parseFrom, comma, cr] using inside

/-- A record of quoted fields, to its line end. -/
theorem parseFrom_record (nonempty : fields ≠ []) (rest : List α) :
    parseFrom marks .start [] record
        (writeRecord marks fields ++ marks.cr :: marks.lf :: rest) =
      (parse marks rest).map ((record ++ fields) :: ·) := by
  induction fields generalizing record with
  | nil => exact absurd rfl nonempty
  | cons field fields ih =>
      cases fields with
      | nil =>
          obtain ⟨-, -, comma⟩ := marks.ne
          rw [writeRecord, List.map_singleton, List.intercalate_singleton, parseFrom_field]
          simp [parseFrom, parse, comma]
      | cons next fields =>
          have following := @ih (record ++ [field]) (List.cons_ne_nil _ _)
          rw [writeRecord, List.map_cons] at following
          rw [writeRecord, List.map_cons, List.map_cons, List.intercalate_cons_cons,
            List.append_assoc, List.append_assoc, parseFrom_field, List.singleton_append,
            parseFrom, if_pos rfl, following, List.append_assoc, List.singleton_append]

theorem parse_cons (nonempty : fields ≠ []) (rest : List α) :
    parse marks (writeRecord marks fields ++ marks.cr :: marks.lf :: rest) =
      (parse marks rest).map (fields :: ·) :=
  parseFrom_record nonempty rest

/-- Reading gives back what was written. -/
theorem parse_write {records : List (List (List α))} (nonempty : records ≠ [])
    (fields : ∀ record ∈ records, record ≠ []) :
    parse marks (write marks records) = some records := by
  induction records with
  | nil => exact absurd rfl nonempty
  | cons record records ih =>
      rw [List.forall_mem_cons] at fields
      cases records with
      | nil =>
          rw [write, List.map_singleton, List.intercalate_singleton, parse_cons fields.1]
          rfl
      | cons next records =>
          have following := ih (List.cons_ne_nil _ _) fields.2
          rw [write, List.map_cons] at following
          rw [write, List.map_cons, List.map_cons, List.intercalate_cons_cons, List.append_assoc,
            List.append_assoc, List.cons_append, List.singleton_append, parse_cons fields.1,
            following]
          rfl

end

end Csv
