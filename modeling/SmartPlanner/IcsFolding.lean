import SmartPlanner.PlannerExport
import Mathlib.Data.List.Induction

/-!
The folding of long lines in `foldIcs`: the loop keeps every piece within 75
octets, whatever the widths of the characters, and loses nothing.
-/

namespace SmartPlanner.PlannerExport

open Utf16 Lines

/-- What the loop of `foldIcs` has made of the text it has taken: no piece but
the first of an empty line is empty. -/
structure Folded (state : List JsString × JsString) (taken : JsString) : Prop where
  folds : Folds space (state.1 ++ [state.2]) taken
  filled : ∀ piece ∈ state.1, piece ≠ []
  current : state.2 = [] → taken = []

/-- One more character, which is never too long for a line. -/
theorem Folded.step {state : List JsString × JsString} {taken character : JsString}
    (folded : Folded state taken) (nonempty : character ≠ [])
    (narrow : (encode character).length ≤ 75) :
    Folded (foldStep state character) (taken ++ character) := by
  obtain ⟨pieces, current⟩ := state
  unfold foldStep
  dsimp only
  split
  · next full =>
    refine ⟨folded.folds.append_piece, ?_, fun h => nomatch h⟩
    rw [List.forall_mem_append, List.forall_mem_singleton]
    refine ⟨folded.filled, ?_⟩
    rintro rfl
    exact absurd narrow (Nat.not_le_of_lt full)
  · refine ⟨folded.folds.append_last, folded.filled, fun h => ?_⟩
    exact absurd (List.append_eq_nil_iff.mp h).2 nonempty

theorem folded_foldl {characters : List JsString}
    (h : ∀ character ∈ characters, character ≠ [] ∧ (encode character).length ≤ 75) :
    Folded (characters.foldl foldStep ([], [])) characters.flatten := by
  induction characters using List.reverseRecOn with
  | nil => exact ⟨folds_nil space, by simp, fun _ => rfl⟩
  | append_singleton characters character ih =>
      rw [List.forall_mem_append, List.forall_mem_singleton] at h
      rw [List.foldl_append, List.flatten_append, List.flatten_singleton]
      exact (ih h.1).step h.2.1 h.2.2

theorem codePoint_narrow {line character : JsString} (h : character ∈ codePoints line) :
    character ≠ [] ∧ (encode character).length ≤ 75 := by
  have size := mem_codePoints h
  have octets := length_encode_le character
  refine ⟨?_, by omega⟩
  rintro rfl
  exact absurd size.1 (by decide)

theorem foldPieces_folded (line : JsString) :
    Folded ((codePoints line).foldl foldStep ([], [])) line := by
  have folded := folded_foldl fun character (h : character ∈ codePoints line) => codePoint_narrow h
  rwa [flatten_codePoints] at folded

/-- The pieces are the line folded, and none is empty unless the line is. -/
theorem foldPieces_folds (line : JsString) :
    Folds space (foldPieces line) line ∧ (line ≠ [] → ∀ piece ∈ foldPieces line, piece ≠ []) := by
  have folded := foldPieces_folded line
  refine ⟨folded.folds, fun nonempty => ?_⟩
  unfold foldPieces
  dsimp only
  rw [List.forall_mem_append, List.forall_mem_singleton]
  exact ⟨folded.filled, fun h => nonempty (folded.current h)⟩

/-- A physical line of whole characters within the limit. -/
def Short (piece : JsString) : Prop := WellFormed piece ∧ (encode piece).length ≤ 75

/-- A character after the blank of a new line. -/
theorem short_next (c : Char) : Short (space :: units c) := by
  have next : ofChars [' ', c] = space :: units c := by
    rw [ofChars_cons, ofChars_cons, ofChars_nil, List.append_nil]
    rfl
  refine ⟨wellFormed_iff.mpr ⟨_, next⟩, ?_⟩
  have octets := length_encode_le (space :: units c)
  have size := length_units_le c
  rw [List.length_cons] at octets
  omega

theorem short_step {state : List JsString × JsString}
    (short : ∀ piece ∈ state.1 ++ [state.2], Short piece) (c : Char) :
    ∀ piece ∈ (foldStep state (units c)).1 ++ [(foldStep state (units c)).2], Short piece := by
  obtain ⟨pieces, current⟩ := state
  rw [List.forall_mem_append, List.forall_mem_singleton] at short
  unfold foldStep
  dsimp only at short ⊢
  split
  · rw [List.forall_mem_append, List.forall_mem_append, List.forall_mem_singleton,
      List.forall_mem_singleton]
    exact ⟨short, short_next c⟩
  · next fits =>
    rw [List.forall_mem_append, List.forall_mem_singleton]
    obtain ⟨chars, rfl⟩ := wellFormed_iff.mp short.2.1
    refine ⟨short.1, ?_, Nat.le_of_not_lt fits⟩
    exact wellFormed_iff.mpr ⟨chars ++ [c], by simp⟩

theorem foldPieces_short (chars : List Char) :
    ∀ piece ∈ foldPieces (ofChars chars), Short piece := by
  unfold foldPieces
  dsimp only
  rw [codePoints_ofChars]
  induction chars using List.reverseRecOn with
  | nil =>
      intro piece hpiece
      rw [List.mem_singleton.mp hpiece]
      exact ⟨wellFormed_ofChars [], Nat.zero_le _⟩
  | append_singleton chars c ih =>
      rw [List.map_append, List.foldl_append]
      exact short_step ih c

/-- Folding a line without line feeds keeps every physical line within the limit
and its characters whole, and dropping each line end with the blank after it
gives the line back. -/
theorem foldIcs_lossless {line : JsString} (noFeed : lf ∉ line) (wellFormed : WellFormed line) :
    (∀ piece ∈ split crlf (foldIcs line), (encode piece).length ≤ 75 ∧ WellFormed piece) ∧
      (∀ piece ∈ (split crlf (foldIcs line)).tail, ∃ rest, piece = space :: rest) ∧
      erase (crlf ++ [space]) (foldIcs line) = line := by
  obtain ⟨chars, rfl⟩ := wellFormed_iff.mp wellFormed
  have folds := (foldPieces_folds (ofChars chars)).1
  have cut : split crlf (foldIcs (ofChars chars)) = foldPieces (ofChars chars) := by
    refine @split_intercalate _ _ lf [cr] [] _ folds.ne_nil (by decide) fun piece hpiece hmem => ?_
    exact (folds.mem hpiece hmem).elim (by decide) noFeed
  rw [cut]
  refine ⟨fun piece hpiece => (foldPieces_short chars piece hpiece).symm, folds.tail_blank, ?_⟩
  exact @erase_intercalate _ _ lf [cr] space _ _ folds (by decide) noFeed

/-- Forty letters of two octets take two physical lines. -/
theorem foldIcs_lossless_letters :
    (split crlf (foldIcs (ofChars (List.replicate 40 'ب')))).map List.length = [37, 4] ∧
      erase (crlf ++ [space]) (foldIcs (ofChars (List.replicate 40 'ب'))) =
        ofChars (List.replicate 40 'ب') :=
  ⟨by decide +kernel, (foldIcs_lossless (by decide) (wellFormed_ofChars _)).2.2⟩

end SmartPlanner.PlannerExport
