import SmartPlanner.FixedEventRepository

/-!
The queries of the repositories over the texts of `Timestamps`. SQLite filters and
orders the rows by their texts, and finds the rows and the order of the instants.
-/

namespace SmartPlanner

open Outcome Sorting Tables

/-- The overlap query of `ScheduleRepository.create`, run on texts. -/
theorem ScheduleRow.overlaps_texts (row : ScheduleRow) (horizon : TimeWindow) :
    overlapsHorizon (isoformat row.horizon.start) (isoformat row.horizon.stop)
        (isoformat horizon.start) (isoformat horizon.stop) = true ↔
      row.horizon.start < horizon.stop ∧ horizon.start < row.horizon.stop := by
  have start := row.horizon.windowValid.1.1.inYears
  have stop := row.horizon.windowValid.2.1.1.inYears
  unfold overlapsHorizon
  rw [Bool.and_eq_true, decide_eq_true_eq, decide_eq_true_eq,
    isoformat_lt start horizon.windowValid.2.1.1.inYears,
    isoformat_lt horizon.windowValid.1.1.inYears stop]

namespace FixedEventRepository
variable (store : Store)

/-- `page` as SQLite runs it, with texts in the filter and in the order. -/
def pageOfTexts (owner : UUID) (start stop : Option Int) (limit offset : Nat) :
    List FixedEventRow :=
  let rows := sortBy (fun row : FixedEventRow => toLex (isoformat row.start, row.id))
    (store.events.select fun row => row.userId = owner &&
      inRange (isoformat row.start) (isoformat row.stop) (start.map isoformat)
        (stop.map isoformat))
  (rows.drop offset).take limit

variable {store}

/-- The filter keeps the rows of the range. -/
theorem inRange_texts {row : FixedEventRow} {start stop : Option Int}
    (years : InYears row.start ∧ InYears row.stop)
    (hstart : ∀ t ∈ start, InYears t) (hstop : ∀ t ∈ stop, InYears t) :
    inRange (isoformat row.start) (isoformat row.stop) (start.map isoformat)
        (stop.map isoformat) =
      (start.all (· < row.stop) && stop.all (row.start < ·)) := by
  have first : (start.map isoformat).all (· < isoformat row.stop) =
      start.all (· < row.stop) := by
    cases start with
    | none => rfl
    | some t => exact decide_eq_decide.mpr (isoformat_lt (hstart t rfl) years.2)
  have last : (stop.map isoformat).all (isoformat row.start < ·) =
      stop.all (row.start < ·) := by
    cases stop with
    | none => rfl
    | some t => exact decide_eq_decide.mpr (isoformat_lt years.1 (hstop t rfl))
  unfold inRange
  rw [first, last]

/-- On rows that a text can hold, SQLite selects and orders the page as the
instants do. -/
theorem page_eq_pageOfTexts {owner : UUID} {start stop : Option Int} {limit offset : Nat}
    (years : ∀ row ∈ store.events, InYears row.start ∧ InYears row.stop)
    (hstart : ∀ t ∈ start, InYears t) (hstop : ∀ t ∈ stop, InYears t) :
    page store owner start stop limit offset =
      .ok (pageOfTexts store owner start stop limit offset) := by
  have filter : (store.events.select fun row => row.userId = owner &&
      inRange (isoformat row.start) (isoformat row.stop) (start.map isoformat)
        (stop.map isoformat)) =
      store.events.select fun row => row.userId = owner &&
        start.all (· < row.stop) && stop.all (row.start < ·) := by
    apply List.filter_congr
    intro row hrow
    rw [inRange_texts (years row hrow) hstart hstop, Bool.and_assoc]
  rw [page_eq hstart hstop, Except.ok.injEq]
  unfold rowsIn pageOfTexts
  rw [filter]
  refine congrArg (fun rows : List FixedEventRow => (rows.drop offset).take limit) ?_
  apply sortBy_unique (sortBy_perm _ _)
  · exact List.Nodup.of_map (fun key => (ofLex key).2)
      (by rw [List.map_map]; exact store.events.select_distinct _)
  · refine (sortBy_pairwise _ _).imp_of_mem ?_
    intro a b ha hb order
    rw [mem_sortBy, Table.mem_select] at ha hb
    have starts := isoformat_lt (years a ha.1).1 (years b hb.1).1
    rw [Prod.Lex.toLex_le_toLex] at order ⊢
    rcases order with less | ⟨same, ids⟩
    · exact Or.inl (starts.mp less)
    · refine Or.inr ⟨?_, ids⟩
      have back := isoformat_lt (years b hb.1).1 (years a ha.1).1
      simp only at same ⊢
      rw [same] at starts back
      have := starts.not.mp (lt_irrefl _)
      have := back.not.mp (lt_irrefl _)
      omega

end FixedEventRepository

end SmartPlanner
