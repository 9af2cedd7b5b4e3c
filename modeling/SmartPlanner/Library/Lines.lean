import Mathlib.Data.List.Basic

/-!
Texts of lines: cutting at a separator, cutting at either of two line ends or
both in a row, and long lines folded over several by a line end and a blank.
-/

namespace Lines

universe u
variable {α : Type u}

/-- `text.split(separator)`, from the left; what is still to be skipped comes first. -/
def splitFrom [DecidableEq α] (separator : List α) : Nat → List α → List (List α)
  | _, [] => [[]]
  | skip + 1, _ :: text => splitFrom separator skip text
  | 0, x :: text =>
      if separator <+: x :: text then [] :: splitFrom separator (separator.length - 1) text
      else (splitFrom separator 0 text).modifyHead (x :: ·)

def split [DecidableEq α] (separator : List α) : List α → List (List α) := splitFrom separator 0

/-- `text.replaceAll(separator, '')`. -/
def erase [DecidableEq α] (separator : List α) (text : List α) : List α :=
  (split separator text).flatten

/-- The first symbol of a text before the lines of the rest. -/
def consLine (x : α) : List (List α) → List (List α)
  | [] => [[x]]
  | line :: lines => (x :: line) :: lines

/-- The lines of a text, each ended by CR, LF or both, or by the end of the text;
an LF directly after a CR belongs to the line end before it. -/
def linesFrom [DecidableEq α] (cr lf : α) (afterCr : Bool) : List α → List (List α)
  | [] => []
  | x :: text =>
      if x = lf then
        if afterCr then linesFrom cr lf false text else [] :: linesFrom cr lf false text
      else if x = cr then [] :: linesFrom cr lf true text
      else consLine x (linesFrom cr lf false text)

def lines [DecidableEq α] (cr lf : α) : List α → List (List α) := linesFrom cr lf false

/-- Long lines put together: a line that begins with a blank continues the one
before it. -/
def unfoldFrom (isBlank : α → Bool) (current : List α) : List (List α) → List (List α)
  | [] => [current]
  | [] :: rest => current :: unfoldFrom isBlank [] rest
  | (x :: body) :: rest =>
      if isBlank x then unfoldFrom isBlank (current ++ body) rest
      else current :: unfoldFrom isBlank (x :: body) rest

def unfold (isBlank : α → Bool) : List (List α) → List (List α)
  | [] => []
  | line :: rest => unfoldFrom isBlank line rest

/-- The line `line` folded over several: each after the first begins with a blank. -/
def Folds (blank : α) (pieces : List (List α)) (line : List α) : Prop :=
  ∃ first, ∃ rest : List (List α),
    pieces = first :: rest.map (List.cons blank) ∧ line = first ++ rest.flatten

section
variable {blank : α} {pieces : List (List α)} {line current text : List α}

theorem folds_nil (blank : α) : Folds blank [[]] [] := ⟨[], [], rfl, rfl⟩

/-- Joined lines with one more separator: the separator ends every line. -/
theorem intercalate_append (separator : List α) {texts : List (List α)} (nonempty : texts ≠ []) :
    separator.intercalate texts ++ separator = texts.flatMap (· ++ separator) := by
  induction texts with
  | nil => exact absurd rfl nonempty
  | cons text texts ih =>
      cases texts with
      | nil => simp
      | cons next texts =>
          rw [List.intercalate_cons_cons, List.append_assoc, ih (List.cons_ne_nil _ _)]
          rfl

/-- More text on the last piece. -/
theorem Folds.append_last (folds : Folds blank (pieces ++ [current]) line) :
    Folds blank (pieces ++ [current ++ text]) (line ++ text) := by
  obtain ⟨first, rest, hpieces, rfl⟩ := folds
  rcases List.eq_nil_or_concat rest with rfl | ⟨rest, last, rfl⟩
  · have whole : pieces ++ [current] = [] ++ [first] := hpieces
    obtain ⟨rfl, hcurrent⟩ := List.append_inj' whole rfl
    rw [List.singleton_inj] at hcurrent
    exact ⟨current ++ text, [], rfl, by simp [hcurrent]⟩
  · rw [List.concat_eq_append, List.map_append, ← List.cons_append] at hpieces
    obtain ⟨rfl, hlast⟩ := List.append_inj' hpieces rfl
    rw [List.map_singleton, List.singleton_inj] at hlast
    exact ⟨first, rest ++ [last ++ text], by simp [hlast], by simp⟩

/-- More text on a piece of its own. -/
theorem Folds.append_piece (folds : Folds blank pieces line) :
    Folds blank (pieces ++ [blank :: text]) (line ++ text) := by
  obtain ⟨first, rest, rfl, rfl⟩ := folds
  exact ⟨first, rest ++ [text], by simp, by simp⟩

theorem Folds.ne_nil (folds : Folds blank pieces line) : pieces ≠ [] := by
  obtain ⟨first, rest, rfl, -⟩ := folds
  exact List.cons_ne_nil _ _

theorem Folds.tail_blank (folds : Folds blank pieces line) :
    ∀ piece ∈ pieces.tail, ∃ rest, piece = blank :: rest := by
  obtain ⟨first, rest, rfl, -⟩ := folds
  intro piece hpiece
  obtain ⟨body, -, rfl⟩ := List.mem_map.mp hpiece
  exact ⟨body, rfl⟩

/-- A piece holds nothing but blanks and what the line holds. -/
theorem Folds.mem (folds : Folds blank pieces line) {x : α} {piece : List α}
    (hpiece : piece ∈ pieces) (hx : x ∈ piece) : x = blank ∨ x ∈ line := by
  obtain ⟨first, rest, rfl, rfl⟩ := folds
  rcases List.mem_cons.mp hpiece with rfl | hpiece
  · exact Or.inr (List.mem_append_left _ hx)
  · obtain ⟨body, hbody, rfl⟩ := List.mem_map.mp hpiece
    rcases List.mem_cons.mp hx with rfl | hx
    · exact Or.inl rfl
    · exact Or.inr (List.mem_append_right _ (List.mem_flatten.mpr ⟨body, hbody, hx⟩))

end

section
variable [DecidableEq α] {separator text piece : List α}

theorem splitFrom_append_of_length {skipped : List α} (separator text : List α) :
    splitFrom separator skipped.length (skipped ++ text) = split separator text := by
  induction skipped with
  | nil => rfl
  | cons x skipped ih => exact ih

theorem split_cons_of_not_start {x : α} (h : ¬ separator <+: x :: text) :
    split separator (x :: text) = (split separator text).modifyHead (x :: ·) := by
  rw [split, splitFrom, if_neg h]

/-- The separator at the start of a text. -/
theorem split_separator_append (nonempty : separator ≠ []) (text : List α) :
    split separator (separator ++ text) = [] :: split separator text := by
  obtain ⟨x, rest, rfl⟩ := List.exists_cons_of_ne_nil nonempty
  rw [List.cons_append, split, splitFrom, if_pos ⟨text, rfl⟩]
  exact congrArg _ (splitFrom_append_of_length (x :: rest) text)

section
variable {mark : α} {before after : List α}

omit [DecidableEq α] in
/-- A separator with a mark does not start more than what it has before the
mark ahead of the first mark of a text. -/
theorem not_prefix_of_marked {x : α} {tail : List α} (hpiece : mark ∉ x :: piece)
    (hbefore : mark ∉ before) :
    ¬ before ++ mark :: after <+: x :: (piece ++ (before ++ mark :: tail)) := by
  intro h
  have start : before ++ [mark] <+: x :: (piece ++ (before ++ mark :: tail)) :=
    List.IsPrefix.trans ⟨after, by simp⟩ h
  have unmarked : x :: piece ++ before <+: x :: (piece ++ (before ++ mark :: tail)) :=
    ⟨mark :: tail, by simp⟩
  have inside := List.prefix_of_prefix_length_le start unmarked (by simp)
  have hmem := inside.subset (List.mem_append_right _ (List.mem_singleton_self mark))
  exact (List.mem_append.mp hmem).elim hpiece hbefore

theorem split_of_not_mem (hmark : mark ∈ separator) (h : mark ∉ piece) :
    split separator piece = [piece] := by
  induction piece with
  | nil => rfl
  | cons x piece ih =>
      rw [split_cons_of_not_start fun hstart => h (hstart.subset hmark),
        ih fun hmem => h (List.mem_cons_of_mem x hmem)]
      rfl

theorem split_append (hpiece : mark ∉ piece) (hbefore : mark ∉ before) (rest : List α) :
    split (before ++ mark :: after) (piece ++ (before ++ mark :: after ++ rest)) =
      piece :: split (before ++ mark :: after) rest := by
  induction piece with
  | nil => exact split_separator_append (by simp) rest
  | cons x piece ih =>
      rw [List.cons_append, split_cons_of_not_start,
        ih fun hmem => hpiece (List.mem_cons_of_mem x hmem)]
      · rfl
      · rw [List.append_assoc, List.cons_append]
        exact not_prefix_of_marked hpiece hbefore

/-- Cutting gives back what was joined. -/
theorem split_intercalate {pieces : List (List α)} (nonempty : pieces ≠ [])
    (hbefore : mark ∉ before) (hpieces : ∀ piece ∈ pieces, mark ∉ piece) :
    split (before ++ mark :: after) ((before ++ mark :: after).intercalate pieces) = pieces := by
  induction pieces with
  | nil => exact absurd rfl nonempty
  | cons piece pieces ih =>
      rw [List.forall_mem_cons] at hpieces
      cases pieces with
      | nil =>
          rw [List.intercalate_singleton]
          exact split_of_not_mem (by simp) hpieces.1
      | cons next pieces =>
          rw [List.intercalate_cons_cons, List.append_assoc, split_append hpieces.1 hbefore,
            ih (List.cons_ne_nil _ _) hpieces.2]

omit [DecidableEq α] in
theorem intercalate_map_cons (separator : List α) (blank : α) (first : List α)
    (rest : List (List α)) : separator.intercalate (first :: rest.map (List.cons blank)) =
      (separator ++ [blank]).intercalate (first :: rest) := by
  induction rest generalizing first with
  | nil => rfl
  | cons body rest ih =>
      have moved : separator.intercalate ((blank :: body) :: rest.map (List.cons blank)) =
          blank :: separator.intercalate (body :: rest.map (List.cons blank)) := by
        cases rest <;> simp [List.intercalate_cons_cons]
      rw [List.map_cons, List.intercalate_cons_cons, moved, ih, List.intercalate_cons_cons]
      simp

/-- Dropping every line end with a blank after it undoes the folding. -/
theorem erase_intercalate {blank : α} {pieces : List (List α)} {line : List α}
    (folds : Folds blank pieces line) (hbefore : mark ∉ before) (hline : mark ∉ line) :
    erase (before ++ mark :: [blank]) ((before ++ [mark]).intercalate pieces) = line := by
  obtain ⟨first, rest, rfl, rfl⟩ := folds
  have unmarked : ∀ piece ∈ first :: rest, mark ∉ piece := by
    rw [List.forall_mem_cons]
    rw [List.mem_append, not_or] at hline
    exact ⟨hline.1, fun piece hpiece hmem => hline.2 (List.mem_flatten_of_mem hpiece hmem)⟩
  rw [erase, intercalate_map_cons, List.append_assoc, List.singleton_append,
    split_intercalate (List.cons_ne_nil _ _) hbefore unmarked, List.flatten_cons]

end

section
variable {cr lf : α} {line : List α}

theorem lines_append (hcr : cr ∉ line) (hlf : lf ∉ line) (hne : cr ≠ lf) (rest : List α) :
    lines cr lf (line ++ cr :: lf :: rest) = line :: lines cr lf rest := by
  unfold lines
  induction line with
  | nil => simp [linesFrom, hne]
  | cons x line ih =>
      rw [List.mem_cons, not_or] at hcr hlf
      rw [List.cons_append, linesFrom, if_neg (Ne.symm hlf.1), if_neg (Ne.symm hcr.1),
        ih hcr.2 hlf.2]
      rfl

/-- Lines that each end in CRLF are found again. -/
theorem lines_flatMap {pieces : List (List α)} (hne : cr ≠ lf)
    (h : ∀ piece ∈ pieces, cr ∉ piece ∧ lf ∉ piece) :
    lines cr lf (pieces.flatMap (· ++ [cr, lf])) = pieces := by
  induction pieces with
  | nil => rfl
  | cons piece pieces ih =>
      rw [List.forall_mem_cons] at h
      have following := lines_append h.1.1 h.1.2 hne (pieces.flatMap (· ++ [cr, lf]))
      rw [List.flatMap_cons, List.append_assoc]
      exact following.trans (congrArg _ (ih h.2))

omit [DecidableEq α] in
theorem mem_consLine {x : α} {rest : List (List α)} (h : line ∈ consLine x rest) :
    line ∈ rest ∨ ∃ body, (body = [] ∨ body ∈ rest) ∧ line = x :: body := by
  cases rest with
  | nil => exact Or.inr ⟨[], Or.inl rfl, List.mem_singleton.mp h⟩
  | cons first others =>
      rcases List.mem_cons.mp h with rfl | h
      · exact Or.inr ⟨first, Or.inr List.mem_cons_self, rfl⟩
      · exact Or.inl (List.mem_cons_of_mem first h)

/-- No line holds a line end. -/
theorem not_mem_linesFrom (afterCr : Bool) {text : List α}
    (h : line ∈ linesFrom cr lf afterCr text) : cr ∉ line ∧ lf ∉ line := by
  have empty : cr ∉ ([] : List α) ∧ lf ∉ ([] : List α) := ⟨List.not_mem_nil, List.not_mem_nil⟩
  induction text generalizing afterCr line with
  | nil => exact absurd h List.not_mem_nil
  | cons x text ih =>
      rw [linesFrom] at h
      split at h
      · split at h
        · exact ih false h
        · rcases List.mem_cons.mp h with rfl | h
          · exact empty
          · exact ih false h
      · next hlf =>
        split at h
        · rcases List.mem_cons.mp h with rfl | h
          · exact empty
          · exact ih true h
        · next hcr =>
          rcases mem_consLine h with h | ⟨body, hbody, rfl⟩
          · exact ih false h
          · have clean : cr ∉ body ∧ lf ∉ body := by
              rcases hbody with rfl | hbody
              · exact empty
              · exact ih false hbody
            rw [List.mem_cons, List.mem_cons, not_or, not_or]
            exact ⟨⟨Ne.symm hcr, clean.1⟩, Ne.symm hlf, clean.2⟩

end

end

section
variable {isBlank : α → Bool} {blank : α} {current : List α}

/-- What is put together holds nothing new. -/
theorem subset_of_mem_unfoldFrom {line : List α} {physical : List (List α)}
    (h : line ∈ unfoldFrom isBlank current physical) : line ⊆ current ++ physical.flatten := by
  induction physical generalizing current with
  | nil =>
      rw [List.mem_singleton.mp h]
      exact List.subset_append_left current _
  | cons piece physical ih =>
      rw [List.flatten_cons]
      cases piece with
      | nil =>
          rcases List.mem_cons.mp h with rfl | h
          · exact List.subset_append_left line _
          · exact List.Subset.trans (ih h) (List.subset_append_right current _)
      | cons y body =>
          rw [unfoldFrom] at h
          split at h
          · refine List.Subset.trans (ih h) ?_
            rw [List.append_assoc]
            exact List.append_subset.mpr ⟨List.subset_append_left current _,
              List.Subset.trans (List.subset_cons_self y _) (List.subset_append_right current _)⟩
          · rcases List.mem_cons.mp h with rfl | h
            · exact List.subset_append_left line _
            · exact List.Subset.trans (ih h) (List.subset_append_right current _)

theorem subset_of_mem_unfold {line : List α} {physical : List (List α)}
    (h : line ∈ unfold isBlank physical) : line ⊆ physical.flatten := by
  cases physical with
  | nil => exact absurd h List.not_mem_nil
  | cons first physical => exact subset_of_mem_unfoldFrom h

/-- Continuation lines. -/
theorem unfoldFrom_blanks (hblank : isBlank blank = true) (bodies rest : List (List α)) :
    unfoldFrom isBlank current (bodies.map (List.cons blank) ++ rest) =
      unfoldFrom isBlank (current ++ bodies.flatten) rest := by
  induction bodies generalizing current with
  | nil => simp
  | cons body bodies ih =>
      rw [List.map_cons, List.cons_append, unfoldFrom, if_pos hblank, ih, List.flatten_cons,
        List.append_assoc]

/-- Folded lines, none of which begins with a blank, are put together again. -/
theorem unfoldFrom_flatMap {fold : List α → List (List α)} {logical : List (List α)}
    (hblank : isBlank blank = true) (folds : ∀ line ∈ logical, Folds blank (fold line) line)
    (opens : ∀ line ∈ logical, ∃ x body, (fold line).head? = some (x :: body) ∧ isBlank x = false) :
    unfoldFrom isBlank current (logical.flatMap fold) = current :: logical := by
  induction logical generalizing current with
  | nil => rfl
  | cons line logical ih =>
      rw [List.forall_mem_cons] at folds opens
      obtain ⟨first, rest, hfold, hline⟩ := folds.1
      obtain ⟨x, body, hfirst, shown⟩ := opens.1
      rw [hfold, List.head?_cons, Option.some.injEq] at hfirst
      rw [List.flatMap_cons, hfold, List.cons_append, hfirst, unfoldFrom, shown,
        if_neg Bool.false_ne_true, ← hfirst, unfoldFrom_blanks hblank, ← hline, ih folds.2 opens.2]

theorem unfold_flatMap {fold : List α → List (List α)} {logical : List (List α)}
    (hblank : isBlank blank = true) (folds : ∀ line ∈ logical, Folds blank (fold line) line)
    (opens : ∀ line ∈ logical, ∃ x body, (fold line).head? = some (x :: body) ∧ isBlank x = false) :
    unfold isBlank (logical.flatMap fold) = logical := by
  cases logical with
  | nil => rfl
  | cons line logical =>
      rw [List.forall_mem_cons] at folds opens
      obtain ⟨first, rest, hfold, hline⟩ := folds.1
      rw [List.flatMap_cons, hfold, List.cons_append, unfold, unfoldFrom_blanks hblank, ← hline,
        unfoldFrom_flatMap hblank folds.2 opens.2]

end

end Lines
