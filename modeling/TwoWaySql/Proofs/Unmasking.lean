import Mathlib.Data.List.Chain
import TwoWaySql.Clause.Mask
import TwoWaySql.Proofs.Masking

/-!
# Masks hide what they stand for

A statement is masked before rules look at it, and its spans are put back behind them. This file

1. shows that masking by bytes finds the pieces of a statement (`maskSpans_eq`): what is reckoned
   as the length of a span always ends behind a character;
2. says what a row of pieces looks like when it is masked: as many masks as spans
   (`count_mask`), no quote (`Piece.Proper.masked_ne`) and no two characters that open a comment
   (`not_opens_masked`);
3. concludes that masking hides all spans and unmasking brings them back (`masking_undone`).
-/

namespace TwoWaySql.Clause

open Piece (Proper Meets)

/-- Masks and spans that are found by bytes are those of the pieces. -/
theorem maskSpans_eq (s : List Char) : maskSpans s = (maskAll s, spans s) := by
  fun_induction pieces s with
  | case1 => rw [maskSpans, maskAll, spans, pieces]; rfl
  | case2 c s span rest h ih =>
    have hbytes : spanBytes? (c :: s) = some (Text.bytes span) := by rw [spanBytes?_eq, h]; rfl
    rw [maskSpans]
    split
    · next hnone => cases hbytes.symm.trans hnone
    · next n hsome =>
      cases hbytes.symm.trans hsome
      rw [cutSpan_eq h, ih, maskAll, maskAll, pieces_hidden h, spans_hidden h]
      rfl
  | case3 c s h ih =>
    have hbytes : spanBytes? (c :: s) = none := by rw [spanBytes?_eq, h]; rfl
    rw [maskSpans]
    split
    · rw [Text.behindBytes_utf8Size, ih, maskAll, maskAll, pieces_live h, spans_live h]
      rfl
    · next n hsome => cases hbytes.symm.trans hsome

/-! ## Masked rows -/

/-- There is one mask for each span. -/
theorem count_mask {row : List Piece} (h : ∀ p ∈ row, p.Proper) :
    (row.map Piece.masked).count mask = (row.filterMap Piece.span?).length := by
  induction row with
  | nil => rfl
  | cons p rest ih =>
    obtain ⟨hp, hrest⟩ := List.forall_mem_cons.1 h
    cases p with
    | live c =>
      show (c :: rest.map Piece.masked).count mask = (rest.filterMap Piece.span?).length
      rw [List.count_cons_of_ne hp.2.2, ih hrest]
    | hidden span =>
      show (mask :: rest.map Piece.masked).count mask = (span :: rest.filterMap Piece.span?).length
      rw [List.count_cons_self, ih hrest, List.length_cons]

/-- A quote is a span of its own or part of one. -/
theorem Piece.Proper.masked_ne {p : Piece} (h : p.Proper) : p.masked ≠ '\'' ∧ p.masked ≠ '"' := by
  cases p with
  | live c => exact ⟨h.1, h.2.1⟩
  | hidden span =>
    show mask ≠ '\'' ∧ mask ≠ '"'
    decide

/-- Neighbours that leave each other alone open no comment when they are masked. -/
theorem Piece.Meets.not_opens_masked {p q : Piece} (h : p.Meets q) : ¬ Opens p.masked q.masked := by
  cases p with
  | hidden span => rintro (⟨hp, -⟩ | ⟨hp, -⟩) <;> cases hp
  | live c =>
    cases q with
    | live d => exact h d rfl
    | hidden span => rintro (⟨-, hq⟩ | ⟨-, hq⟩) <;> cases hq

/-- No two neighbours in a masked statement open a comment. -/
theorem not_opens_of_neighbours {c d : Char} {s : List Char} (h : [c, d] <:+: maskAll s) :
    ¬ Opens c d := by
  have hchain : (maskAll s).IsChain fun c d => ¬ Opens c d :=
    (List.isChain_map Piece.masked).2 ((pieces_meet s).imp fun _ _ => Piece.Meets.not_opens_masked)
  have hpair : [c, d].IsChain fun c d => ¬ Opens c d := List.IsChain.infix hchain h
  exact List.isChain_pair.1 hpair

/-- Masking a statement, by bytes or by pieces, leaves no quote and no comment, and as many masks as
there are spans. Putting the spans in their places gives the statement back. -/
theorem masking_undone (sql : String) :
    maskSpans sql.toList = (maskAll sql.toList, spans sql.toList) ∧
    String.ofList (unmask (spans sql.toList) (maskAll sql.toList)) = sql ∧
    (maskAll sql.toList).count mask = (spans sql.toList).length ∧
    '\'' ∉ maskAll sql.toList ∧ '"' ∉ maskAll sql.toList ∧
    ¬ ['-', '-'] <:+: maskAll sql.toList ∧ ¬ ['/', '*'] <:+: maskAll sql.toList := by
  have hproper := pieces_proper sql.toList
  have hquote : ∀ c ∈ maskAll sql.toList, c ≠ '\'' ∧ c ≠ '"' := by
    intro c hc
    obtain ⟨p, hp, rfl⟩ := List.mem_map.1 hc
    exact (hproper p hp).masked_ne
  refine ⟨maskSpans_eq _, ?_, count_mask hproper, ?_, ?_, ?_, ?_⟩
  · rw [unmask_maskAll, String.ofList_toList]
  · exact fun hmem => (hquote _ hmem).1 rfl
  · exact fun hmem => (hquote _ hmem).2 rfl
  · exact fun hpair => not_opens_of_neighbours hpair (.inl ⟨rfl, rfl⟩)
  · exact fun hpair => not_opens_of_neighbours hpair (.inr ⟨rfl, rfl⟩)

end TwoWaySql.Clause
