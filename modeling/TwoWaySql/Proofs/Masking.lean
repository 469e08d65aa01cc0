import Mathlib.Data.List.Chain
import Mathlib.Data.List.TakeWhile
import TwoWaySql.Clause.Span

/-!
# Pieces in a row

A statement is cut into pieces from left to right. This file says which rows of pieces come out when
their characters are cut again, which decides whether spans survive a change to what stands between
them:

1. a span ends by itself, at a line break or at the end of the statement (`span?_cases`);
2. two neighbours may meet or not (`Piece.Meets`), and a line comment keeps its line to itself or
   not (`Piece.KeepsLine`); the pieces of a statement do both;
3. pieces that meet are found again, span by span, exactly if all line comments keep their lines to
   themselves (`spans_chars_iff`);
4. spans put in place of their masks give the characters of the row (`unmask_row`).
-/

namespace TwoWaySql.Clause

/-! ## Where spans end -/

/-- A span that ends where it ends, whatever follows. -/
def Closed (span : List Char) : Prop := ∀ behind, span? (span ++ behind) = some (span, behind)

/-- A comment that goes on to the end of its line. -/
def IsLineComment (span : List Char) : Prop := ∃ body, span = '-' :: '-' :: body ∧ '\n' ∉ body

theorem IsLineComment.span? {span : List Char} (h : IsLineComment span) (behind : List Char) :
    span? (span ++ behind) =
      some (span ++ behind.takeWhile (· != '\n'), behind.dropWhile (· != '\n')) := by
  obtain ⟨body, rfl, hbody⟩ := h
  have hall : ∀ c ∈ body, (c != '\n') = true := by
    intro c hc
    simpa using fun heq : c = '\n' => hbody (heq ▸ hc)
  show some ('-' :: '-' :: (body ++ behind).takeWhile (· != '\n'),
    (body ++ behind).dropWhile (· != '\n')) = _
  rw [List.takeWhile_append_of_pos hall, List.dropWhile_append_of_pos hall]
  rfl

theorem Closed.of_quotedSpan {quote : Char} {s span rest : List Char}
    (h : quotedSpan quote s = (span, rest))
    (hspan : ∀ t, span? (quote :: t) = some (quotedSpan quote t)) : Closed span ∨ rest = [] := by
  unfold quotedSpan at h
  split at h
  · next before after hcut =>
    cases h
    refine .inl fun behind => ?_
    rw [List.cons_append, hspan, quotedSpan, Text.cutThrough?_front hcut]
  · cases h
    exact .inr rfl

/-- A span ends by itself, at the end of the statement or at the end of a line. -/
theorem span?_cases {s span rest : List Char} (h : span? s = some (span, rest)) :
    Closed span ∨ rest = [] ∨ IsLineComment span ∧ ∃ more, rest = '\n' :: more := by
  unfold span? at h
  split at h
  · cases h
  · have hquoted := Closed.of_quotedSpan (Option.some.inj h) (fun _ => rfl)
    exact hquoted.imp_right .inl
  · have hquoted := Closed.of_quotedSpan (Option.some.inj h) (fun _ => rfl)
    exact hquoted.imp_right .inl
  · next s =>
    cases h
    right
    cases hrest : s.dropWhile (· != '\n') with
    | nil => exact .inl rfl
    | cons c more =>
      have hc : c = '\n' := by
        have hhead := List.head?_dropWhile_not (· != '\n') s
        rw [hrest] at hhead
        simpa using hhead
      refine .inr ⟨⟨_, rfl, ?_⟩, more, by rw [hc]⟩
      intro hmem
      simpa using List.mem_takeWhile_imp hmem
  · split at h
    · next before after hcut =>
      cases h
      refine .inl fun behind => ?_
      have hcut' := Text.cutComment?_front hcut behind
      rw [List.cons_append, List.cons_append, List.append_assoc]
      simp only [Clause.span?, List.cons_append, List.nil_append, hcut']
    · cases h
      exact .inr (.inl rfl)
  · split at h
    · next hmask =>
      cases h
      subst hmask
      exact .inl fun behind => rfl
    · cases h

theorem IsLineComment.not_closed {span : List Char} (h : IsLineComment span) : ¬ Closed span := by
  intro hclosed
  have hboth := (h.span? ['a']).symm.trans (hclosed ['a'])
  have hrest : [] = ['a'] := congrArg Prod.snd (Option.some.inj hboth)
  cases hrest

/-- A span that was found in a statement is found by itself. -/
theorem span?_self {s span rest : List Char} (h : span? s = some (span, rest)) :
    span? span = some (span, []) := by
  rcases span?_cases h with hclosed | rfl | ⟨hline, -⟩
  · have hself := hclosed []
    rwa [List.append_nil] at hself
  · have hwhole := append_of_span? h
    rw [List.append_nil] at hwhole
    rwa [← hwhole] at h
  · have hself := hline.span? []
    rwa [List.append_nil, List.takeWhile_nil, List.append_nil, List.dropWhile_nil] at hself

/-- Two characters that open a comment. -/
def Opens (c d : Char) : Prop := c = '-' ∧ d = '-' ∨ c = '/' ∧ d = '*'

theorem span?_eq_none_iff {c : Char} {s : List Char} :
    span? (c :: s) = none ↔ (c ≠ '\'' ∧ c ≠ '"' ∧ c ≠ mask) ∧ ∀ d ∈ s.head?, ¬ Opens c d := by
  constructor
  · intro h
    unfold span? at h
    split at h
    · next heq => cases heq
    · cases h
    · cases h
    · cases h
    · split at h <;> cases h
    · next hquote hdouble hhyphen hslash heq =>
      obtain ⟨rfl, rfl⟩ := List.cons.inj heq
      split at h
      · cases h
      · next hmask =>
        refine ⟨⟨hquote, hdouble, hmask⟩, ?_⟩
        rintro d hd (⟨rfl, rfl⟩ | ⟨rfl, rfl⟩)
        · obtain ⟨more, rfl⟩ := List.head?_eq_some_iff.1 hd
          exact hhyphen more rfl rfl
        · obtain ⟨more, rfl⟩ := List.head?_eq_some_iff.1 hd
          exact hslash more rfl rfl
  · rintro ⟨⟨hquote, hdouble, hmask⟩, hopens⟩
    unfold span?
    split
    · rfl
    · next heq => exact absurd (List.cons.inj heq).1 hquote
    · next heq => exact absurd (List.cons.inj heq).1 hdouble
    · next heq =>
      obtain ⟨rfl, rfl⟩ := List.cons.inj heq
      exact absurd (.inl ⟨rfl, rfl⟩) (hopens _ rfl)
    · next heq =>
      obtain ⟨rfl, rfl⟩ := List.cons.inj heq
      exact absurd (.inr ⟨rfl, rfl⟩) (hopens _ rfl)
    · next heq =>
      obtain ⟨rfl, rfl⟩ := List.cons.inj heq
      exact if_neg hmask

theorem span?_newline (s : List Char) : span? ('\n' :: s) = none := by
  rw [span?_eq_none_iff]
  refine ⟨by decide, ?_⟩
  rintro d - (⟨h, -⟩ | ⟨h, -⟩) <;> cases h

/-! ## Neighbours -/

namespace Piece

/-- A piece that is found by itself. -/
def Proper : Piece → Prop
  | live c => c ≠ '\'' ∧ c ≠ '"' ∧ c ≠ mask
  | hidden span => Clause.span? span = some (span, [])

/-- Whether a piece leaves its neighbour alone, up to line comments: a character opens nothing
together with the one behind it, and a span in front of another piece is closed. -/
def Meets : Piece → Piece → Prop
  | live c, next => ∀ d ∈ next.chars.head?, ¬ Opens c d
  | hidden span, _ => Closed span ∨ IsLineComment span

/-- Whether a line break follows the piece if it is a line comment. -/
def KeepsLine : Piece → Piece → Prop
  | live _, _ => True
  | hidden span, next => IsLineComment span → next = live '\n'

theorem Proper.chars_ne_nil {p : Piece} (h : p.Proper) : p.chars ≠ [] := by
  cases p with
  | live c => nofun
  | hidden span => exact ne_nil_of_span? h

/-- A span that starts as a line comment is one. -/
theorem Proper.isLineComment {body : List Char} (h : Proper (hidden ('-' :: '-' :: body))) :
    IsLineComment ('-' :: '-' :: body) := by
  refine ⟨body, rfl, fun hmem => ?_⟩
  have hbody : body.takeWhile (· != '\n') = body := by
    have hspan := congrArg Prod.fst (Option.some.inj h)
    exact (List.cons.inj (List.cons.inj hspan).2).2
  rw [← hbody] at hmem
  simpa using List.mem_takeWhile_imp hmem

end Piece

open Piece (Proper Meets KeepsLine)

theorem head?_chars {row : List Piece} (h : ∀ p ∈ row, p.Proper) :
    (row.flatMap Piece.chars).head? = row.head?.bind fun p => p.chars.head? := by
  cases row with
  | nil => rfl
  | cons p rest =>
    rw [List.flatMap_cons, List.head?_append_of_ne_nil _ (h p List.mem_cons_self).chars_ne_nil]
    rfl

theorem pieces_hidden {s span rest : List Char} (h : span? s = some (span, rest)) :
    pieces s = .hidden span :: pieces rest := by
  cases s with
  | nil => cases h
  | cons c s =>
    rw [pieces]
    split
    · next hspan =>
      cases h.symm.trans hspan
      rfl
    · next hspan => cases h.symm.trans hspan

theorem pieces_live {c : Char} {s : List Char} (h : span? (c :: s) = none) :
    pieces (c :: s) = .live c :: pieces s := by
  rw [pieces]
  split
  · next hspan => cases h.symm.trans hspan
  · rfl

/-- The pieces of a statement are proper. -/
theorem pieces_proper (s : List Char) : ∀ p ∈ pieces s, p.Proper := by
  fun_induction pieces s with
  | case1 => exact List.forall_mem_nil _
  | case2 c s span rest h ih => exact List.forall_mem_cons.2 ⟨span?_self h, ih⟩
  | case3 c s h ih => exact List.forall_mem_cons.2 ⟨(span?_eq_none_iff.1 h).1, ih⟩

theorem head?_chars_pieces (s : List Char) :
    (pieces s).head?.bind (fun p => p.chars.head?) = s.head? := by
  rw [← head?_chars (pieces_proper s), flatMap_chars_pieces]

/-- Neighbours in a statement leave each other alone. -/
theorem pieces_meet (s : List Char) : (pieces s).IsChain Meets := by
  fun_induction pieces s with
  | case1 => exact .nil
  | case2 c s span rest h ih =>
    refine List.isChain_cons.2 ⟨fun next hnext => ?_, ih⟩
    rcases span?_cases h with hclosed | rfl | ⟨hline, -⟩
    · exact .inl hclosed
    · simp [pieces] at hnext
    · exact .inr hline
  | case3 c s h ih =>
    refine List.isChain_cons.2 ⟨fun next hnext d hd => ?_, ih⟩
    have hhead := head?_chars_pieces s
    rw [Option.mem_def.1 hnext] at hhead
    exact (span?_eq_none_iff.1 h).2 d (hhead ▸ hd)

/-- A line comment in a statement keeps its line to itself. -/
theorem pieces_keepLines (s : List Char) : (pieces s).IsChain KeepsLine := by
  fun_induction pieces s with
  | case1 => exact .nil
  | case2 c s span rest h ih =>
    refine List.isChain_cons.2 ⟨fun next hnext hline => ?_, ih⟩
    rcases span?_cases h with hclosed | rfl | ⟨-, more, rfl⟩
    · exact absurd hclosed hline.not_closed
    · simp [pieces] at hnext
    · rw [pieces_live (span?_newline more)] at hnext
      exact (Option.some.inj hnext).symm
  | case3 c s h ih => exact List.isChain_cons.2 ⟨fun _ _ => trivial, ih⟩

/-! ## Finding pieces again -/

theorem spans_hidden {s span rest : List Char} (h : span? s = some (span, rest)) :
    spans s = span :: spans rest := by
  rw [spans, pieces_hidden h]
  rfl

theorem spans_live {c : Char} {s : List Char} (h : span? (c :: s) = none) :
    spans (c :: s) = spans s := by
  rw [spans, pieces_live h]
  rfl

/-- A line break in front of pieces is a piece. -/
theorem Piece.Proper.eq_newline {p : Piece} (h : p.Proper) (hhead : p.chars.head? = some '\n') :
    p = .live '\n' := by
  cases p with
  | live c => exact congrArg Piece.live (Option.some.inj hhead)
  | hidden span =>
    obtain ⟨more, rfl⟩ := List.head?_eq_some_iff.1 hhead
    cases (span?_newline more).symm.trans h

/-- A line comment in front of pieces is found again exactly if a line break follows it. -/
theorem IsLineComment.spans_eq_iff {span : List Char} (hline : IsLineComment span) {next : Piece}
    (hnext : next.Proper) {rest : List Piece} (hhead : ((next :: rest).flatMap Piece.chars).head? =
      next.chars.head?) (found : List (List Char)) :
    spans (span ++ (next :: rest).flatMap Piece.chars) = span :: found ↔
      next = .live '\n' ∧ spans ((next :: rest).flatMap Piece.chars) = found := by
  rw [spans_hidden (hline.span? _)]
  cases hbehind : (next :: rest).flatMap Piece.chars with
  | nil =>
    rw [hbehind] at hhead
    exact absurd (List.head?_eq_none_iff.1 hhead.symm) hnext.chars_ne_nil
  | cons d behind =>
    rw [hbehind] at hhead
    by_cases hd : d = '\n'
    · subst hd
      show (span ++ []) :: spans ('\n' :: behind) = _ ↔ _
      rw [List.append_nil, List.cons_inj_right]
      exact ⟨fun h => ⟨hnext.eq_newline hhead.symm, h⟩, And.right⟩
    · -- the comment goes on to the next line break, and so takes in what follows it
      constructor
      · intro h
        have hnil := List.append_right_eq_self.1 (List.cons.inj h).1
        simp [hd] at hnil
      · intro h
        rw [h.1] at hhead
        exact absurd (Option.some.inj hhead) hd

/-- In a row of pieces that meet, the spans are found again exactly if line comments keep their
lines to themselves. -/
theorem spans_chars_iff {row : List Piece} (hproper : ∀ p ∈ row, p.Proper)
    (hmeets : row.IsChain Meets) :
    spans (row.flatMap Piece.chars) = row.filterMap Piece.span? ↔ row.IsChain KeepsLine := by
  induction row with
  | nil => exact ⟨fun _ => .nil, fun _ => by simp [spans, pieces]⟩
  | cons p rest ih =>
    obtain ⟨hp, hrest⟩ := List.forall_mem_cons.1 hproper
    obtain ⟨hnext, hmeets⟩ := List.isChain_cons.1 hmeets
    have ih := ih hrest hmeets
    have hhead := head?_chars hrest
    rw [List.flatMap_cons, List.isChain_cons]
    cases p with
    | live c =>
      have hnone : span? (c :: rest.flatMap Piece.chars) = none := by
        refine span?_eq_none_iff.2 ⟨hp, fun d hd => ?_⟩
        rw [hhead] at hd
        obtain ⟨next, hmem, hd⟩ := Option.mem_bind_iff.1 hd
        exact hnext next hmem d hd
      show spans (c :: rest.flatMap Piece.chars) = rest.filterMap Piece.span? ↔ _
      rw [spans_live hnone, ih]
      exact ⟨fun h => ⟨fun _ _ => trivial, h⟩, And.right⟩
    | hidden span =>
      show spans (span ++ rest.flatMap Piece.chars) = span :: rest.filterMap Piece.span? ↔ _
      cases rest with
      | nil =>
        have hspans : spans (span ++ []) = [span] := by
          rw [List.append_nil, spans_hidden hp]
          simp [spans, pieces]
        exact ⟨fun _ => ⟨fun _ hnext => (by cases hnext), .nil⟩, fun _ => hspans⟩
      | cons next more =>
        rcases hnext next rfl with hclosed | hline
        · rw [spans_hidden (hclosed _), List.cons_inj_right, ih]
          refine ⟨fun h => ⟨fun _ _ hline => absurd hclosed hline.not_closed, h⟩, And.right⟩
        · rw [hline.spans_eq_iff (hrest next List.mem_cons_self) hhead, ih]
          refine and_congr_left fun _ => ⟨fun h q hq _ => ?_, fun h => h next rfl hline⟩
          exact Option.some.inj hq ▸ h

theorem unmask_live {c : Char} (h : c ≠ mask) (spans : List (List Char)) (s : List Char) :
    unmask spans (c :: s) = c :: unmask spans s := by
  cases spans with
  | nil => cases s <;> rfl
  | cons span spans => rw [unmask, if_neg h]

/-- Spans in place of their masks give the characters of a row. -/
theorem unmask_row {row : List Piece} (hproper : ∀ p ∈ row, p.Proper) :
    unmask (row.filterMap Piece.span?) (row.map Piece.masked) = row.flatMap Piece.chars := by
  induction row with
  | nil => rfl
  | cons p rest ih =>
    obtain ⟨hp, hrest⟩ := List.forall_mem_cons.1 hproper
    cases p with
    | live c =>
      show unmask (rest.filterMap Piece.span?) (c :: rest.map Piece.masked) = c :: _
      rw [unmask_live hp.2.2, ih hrest]
      rfl
    | hidden span =>
      show unmask (span :: _) (mask :: rest.map Piece.masked) = span ++ _
      rw [unmask, if_pos rfl, ih hrest]
      rfl

/-- The spans of a statement in place of their masks give the statement back. -/
theorem unmask_maskAll (s : List Char) : unmask (spans s) (maskAll s) = s := by
  rw [spans, maskAll, unmask_row (pieces_proper s), flatMap_chars_pieces]

end TwoWaySql.Clause
