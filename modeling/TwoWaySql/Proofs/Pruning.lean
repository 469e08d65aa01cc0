import TwoWaySql.Proofs.RunModels

/-!
# What goes away from a statement

Tidying up takes connectives out of a statement and leaves everything else. This file

1. says what may go away from the runs of a statement (`Prunes`): the words of `leftovers`, commas
   and blanks, or a space in place of the blanks in front of the next clause;
2. shows that this is so for each rule, one after the other (`Prunes.trans`, `prunes_tidied`);
3. concludes it for the statement (`clean_prunes`): hidden spans and all other runs are written out
   again as they are, and where no rule finds anything, nothing changes.
-/

namespace TwoWaySql.Clause

open Run (clause? clauseNames)

/-- The words that may go away. -/
def leftovers : List String := ["WHERE", "AND", "OR"]

/-- Runs of which some went away: words that are leftovers, commas and blanks. Blanks may also give
way to a space in front of the next clause. A clause that starts behind a run that stays still does
so. -/
inductive Prunes : List Run → List Run → Prop
  | done : Prunes [] []
  | keep {rs out : List Run} (r : Run)
    (hclause : (clause? rs).isSome = true → (clause? out).isSome = true) (h : Prunes rs out) :
    Prunes (r :: rs) (r :: out)
  | blanks {rs out : List Run} (b : List Char) (h : Prunes rs out) :
    Prunes (.blanks b :: rs) out
  | space {rs out : List Run} (b : List Char) (hclause : (clause? out).isSome = true)
    (h : Prunes rs out) : Prunes (.blanks b :: rs) (.blanks [' '] :: out)
  | word {rs out : List Run} (w : List Char) (hname : (Run.word w).name ∈ leftovers)
    (h : Prunes rs out) : Prunes (.word w :: rs) out
  | comma {rs out : List Run} (h : Prunes rs out) : Prunes (.piece (.live ',') :: rs) out

namespace Prunes

variable {rs mid out : List Run}

theorem refl (rs : List Run) : Prunes rs rs := by
  induction rs with
  | nil => exact .done
  | cons r rest ih => exact .keep r id ih

theorem trans (h : Prunes rs mid) (h' : Prunes mid out) : Prunes rs out := by
  induction h generalizing out with
  | done => exact h'
  | blanks b h ih => exact .blanks b (ih h')
  | word w hname h ih => exact .word w hname (ih h')
  | comma h ih => exact .comma (ih h')
  | keep r hclause h ih =>
    cases h' with
    | keep r hclause' h' => exact .keep r (fun hrs => hclause' (hclause hrs)) (ih h')
    | blanks b h' => exact .blanks b (ih h')
    | space b hout h' => exact .space b hout (ih h')
    | word w hname h' => exact .word w hname (ih h')
    | comma h' => exact .comma (ih h')
  | space b hclause h ih =>
    cases h' with
    | keep r hclause' h' => exact .space b (hclause' hclause) (ih h')
    | blanks b' h' => exact .blanks b (ih h')
    | space b' hout h' => exact .space b hout (ih h')

theorem takeBlanks (rs out : List Run) : Prunes (Run.takeBlanks rs ++ out) out := by
  rcases rs with _ | ⟨⟨_ | _, b⟩ | p, rest⟩
  · exact refl out
  · exact refl out
  · exact .blanks b (refl out)
  · exact refl out

/-- No hidden span goes away. -/
theorem spans_eq (h : Prunes rs out) :
    (out.flatMap Run.pieces).filterMap Piece.span? =
      (rs.flatMap Run.pieces).filterMap Piece.span? := by
  have hgroup (kind : Kind) (s : List Char) :
      (Run.group kind s).pieces.filterMap Piece.span? = [] := by
    rw [Run.pieces, List.filterMap_map]
    exact List.filterMap_eq_nil_iff.2 fun _ _ => rfl
  induction h with
  | done => rfl
  | keep r hclause h ih => simp only [List.flatMap_cons, List.filterMap_append, ih]
  | blanks b h ih => rw [List.flatMap_cons, List.filterMap_append, hgroup, ih, List.nil_append]
  | space b hclause h ih =>
    simp only [List.flatMap_cons, List.filterMap_append, hgroup, ih, List.nil_append]
  | word w hname h ih => rw [List.flatMap_cons, List.filterMap_append, hgroup, ih, List.nil_append]
  | comma h ih => exact ih

/-- No piece is put in but the space. -/
theorem mem_pieces (h : Prunes rs out) {p : Piece} (hp : p ∈ out.flatMap Run.pieces) :
    p ∈ rs.flatMap Run.pieces ∨ p = .live ' ' := by
  induction h with
  | done => exact .inl hp
  | keep r hclause h ih =>
    rw [List.flatMap_cons, List.mem_append] at hp ⊢
    rcases hp with hp | hp
    · exact .inl (.inl hp)
    · exact (ih hp).imp_left .inr
  | blanks b h ih => exact (ih hp).imp_left (List.mem_append_right _)
  | space b hclause h ih =>
    rw [List.flatMap_cons, List.mem_append] at hp
    rcases hp with hp | hp
    · exact .inr (List.mem_singleton.1 hp)
    · exact (ih hp).imp_left (List.mem_append_right _)
  | word w hname h ih => exact (ih hp).imp_left (List.mem_append_right _)
  | comma h ih => exact (ih hp).imp_left (List.mem_append_right _)

end Prunes

/-! ## What each rule takes away -/

namespace Run

/-- Whether the next clause starts somewhere is decided by the runs that start it. -/
theorem isSome_clause?_append {rs : List Run} {found : List Run × List Run}
    (h : clause? rs = some found) (behind : List Run) :
    (clause? (found.1 ++ behind)).isSome = true := by
  have one {keyword : String} (h : word? keyword rs = some found) :
      (word? keyword (found.1 ++ behind)).isSome = true := by
    obtain ⟨r, -, hfront, hname⟩ := word?_eq_some h
    simp [hfront, word?, hname]
  have two {first second : String} (h : words? first second rs = some found) :
      (words? first second (found.1 ++ behind)).isSome = true := by
    obtain ⟨r, b, s, -, hfront, hfirst, hsecond⟩ := words?_eq_some h
    simp [hfront, words?, hfirst, hsecond]
  simp only [clause?, Option.orElse_eq_orElse, Option.orElse_eq_or, Option.or_eq_some_iff,
    Option.isSome_or, Bool.or_eq_true] at h ⊢
  rcases h with h | ⟨-, h | ⟨-, h | ⟨-, h | ⟨-, h | ⟨-, h⟩⟩⟩⟩⟩
  · exact .inl (two h)
  · exact .inr (.inl (two h))
  · exact .inr (.inr (.inl (one h)))
  · exact .inr (.inr (.inr (.inl (one h))))
  · exact .inr (.inr (.inr (.inr (.inl (one h)))))
  · exact .inr (.inr (.inr (.inr (.inr (two h)))))

end Run

/-- A rule applies at no word that starts the next clause, nor at blanks in front of one. -/
structure RunRule.SparesClauses (rule : RunRule) : Prop where
  word : ∀ r rest, r.name ∈ clauseNames → rule.applies r rest = false
  blanks : ∀ b r rest, r.name ∈ clauseNames → rule.applies (.blanks b) (r :: rest) = false

theorem RunRule.SparesClauses.isSome_clause? {rule : RunRule} (h : rule.SparesClauses)
    {rs : List Run} (hrs : (clause? rs).isSome = true) :
    (clause? (rule.apply rs)).isSome = true := by
  obtain ⟨⟨front, behind⟩, hclause⟩ := Option.isSome_iff_exists.1 hrs
  rw [Run.apply_clause h.word h.blanks hclause]
  exact Run.isSome_clause?_append hclause _

/-- A rule prunes if it does so where it applies, and leaves the next clause alone. -/
theorem RunRule.SparesClauses.prunes {rule : RunRule} (h : rule.SparesClauses)
    (hchange : ∀ r rest, rule.applies r rest = true →
      Prunes (r :: rule.apply rest) (rule.change r (rule.apply rest))) (rs : List Run) :
    Prunes rs (rule.apply rs) := by
  induction rs with
  | nil => exact .done
  | cons r rest ih =>
    have hcons : Prunes (r :: rest) (r :: rule.apply rest) := .keep r h.isSome_clause? ih
    cases happlies : rule.applies r rest with
    | false =>
      rw [RunRule.apply_cons_of_not happlies]
      exact hcons
    | true =>
      rw [RunRule.apply_cons happlies]
      exact hcons.trans (hchange r rest happlies)

namespace Run

theorem clause?_of_name {r : Run} (h : r.name ∉ clauseNames) (rest : List Run) :
    clause? (r :: rest) = none := by
  rw [Option.eq_none_iff_forall_ne_some]
  intro found hfound
  obtain ⟨hrs, ⟨s, hfront, hname⟩ | ⟨s, b, t, hfront, hname, -⟩⟩ := clause?_eq_some hfound
  all_goals
    rw [hfront] at hrs
    obtain rfl : r = s := (List.cons.inj hrs).1
    exact h hname

/-- In front of runs that start no clause nothing has to be kept. -/
theorem prunes_keep {r s : Run} {rest out : List Run} (hs : s.name ∉ clauseNames)
    (h : Prunes (s :: rest) out) : Prunes (r :: s :: rest) (r :: out) :=
  .keep r (by rw [clause?_of_name hs]; nofun) h

theorem mem_leftovers_of_isConjunction {r : Run} (h : r.isConjunction = true) :
    r.name ∈ leftovers := by
  rcases Bool.or_eq_true_iff.1 h with h | h
  · simp [leftovers, eq_of_beq h]
  · simp [leftovers, eq_of_beq h]

theorem not_mem_clauseNames_of_mem_leftovers {r : Run} (h : r.name ∈ leftovers) :
    r.name ∉ clauseNames := by
  revert h
  generalize r.name = name
  revert name
  decide

theorem afterWhere_prunes (rs : List Run) : Prunes rs (afterWhere.apply rs) := by
  have hspares : afterWhere.SparesClauses := by
    refine ⟨fun r rest hr => ?_, fun b r rest _ => rfl⟩
    have hname : r.name ≠ "WHERE" := ne_of_mem_clauseNames hr
    simp [afterWhere, hname]
  refine hspares.prunes (fun r rest happlies => ?_) rs
  obtain ⟨w, b, c, d, behind, rfl, -, hc, rfl, happly⟩ := afterWhere_cases happlies
  have hc := mem_leftovers_of_isConjunction hc
  obtain ⟨v, rfl⟩ := exists_word (r := c) (by rintro heq; simp [heq, leftovers] at hc)
  have hblanks : (blanks b).name ∉ clauseNames := by simp [clauseNames]
  rw [happly]
  refine prunes_keep hblanks (prunes_keep (not_mem_clauseNames_of_mem_leftovers hc) ?_)
  exact .word v hc (.blanks d (.refl _))

theorem whereAtEnd_prunes (rs : List Run) : Prunes rs (whereAtEnd.apply rs) := by
  have hspares : whereAtEnd.SparesClauses := by
    refine ⟨fun r rest hr => ?_, fun b r rest hr => ?_⟩
    · simp [whereAtEnd, isBlanks_eq_false (ne_of_mem_clauseNames hr)]
    · simp [whereAtEnd, startsWhere_of_name (ne_of_mem_clauseNames hr)]
  refine hspares.prunes (fun r rest happlies => ?_) rs
  obtain ⟨b, w, behind, rfl, rfl, hname, hends, happly⟩ := whereAtEnd_cases happlies
  rw [happly]
  show Prunes _ (dropBlanks _)
  rw [List.tail_cons, dropBlanks_end hends]
  exact .blanks b (.word w (by simp [hname, leftovers]) (.takeBlanks behind _))

theorem whereBeforeClause_prunes (rs : List Run) : Prunes rs (whereBeforeClause.apply rs) := by
  have hspares : whereBeforeClause.SparesClauses := by
    refine ⟨fun r rest hr => ?_, fun b r rest hr => ?_⟩
    · simp [whereBeforeClause, isBlanks_eq_false (ne_of_mem_clauseNames hr)]
    · simp [whereBeforeClause, startsWhere_of_name (ne_of_mem_clauseNames hr)]
  refine hspares.prunes (fun r rest happlies => ?_) rs
  obtain ⟨b, w, d, next, front, behind, rfl, rfl, hname, hclause, happly⟩ :=
    whereBeforeClause_cases happlies
  have hbehind := isSome_clause?_append hclause (whereBeforeClause.apply behind)
  rw [happly]
  exact .space b hbehind (.word w (by simp [hname, leftovers]) (.blanks d (.refl _)))

theorem afterSet_prunes (rs : List Run) : Prunes rs (afterSet.apply rs) := by
  have hspares : afterSet.SparesClauses := by
    refine ⟨fun r rest hr => ?_, fun b r rest _ => rfl⟩
    have hname : r.name ≠ "SET" := ne_of_mem_clauseNames hr
    simp [afterSet, hname]
  refine hspares.prunes (fun r rest happlies => ?_) rs
  obtain ⟨w, b, behind, rfl, -, rfl, happly⟩ := afterSet_cases happlies
  have hcomma : (piece (.live ',')).name ∉ clauseNames := by simp [clauseNames]
  have hblanks : (blanks b).name ∉ clauseNames := by simp [clauseNames]
  rw [happly]
  refine prunes_keep hblanks (prunes_keep hcomma (.comma ?_))
  have hdrop := Prunes.takeBlanks (afterSet.apply behind) (dropBlanks (afterSet.apply behind))
  rwa [takeBlanks_append_dropBlanks] at hdrop

end Run

theorem prunes_tidied (rs : List Run) : Prunes rs (tidied rs) :=
  (((Run.afterWhere_prunes rs).trans (Run.whereAtEnd_prunes _)).trans
    (Run.whereBeforeClause_prunes _)).trans (Run.afterSet_prunes _)

/-! ## Statements -/

/-- Runs as they are written, with their hidden spans. -/
def written (rs : List Run) : List Char := rs.flatMap fun r => r.pieces.flatMap Piece.chars

theorem written_eq (rs : List Run) : written rs = (rs.flatMap Run.pieces).flatMap Piece.chars :=
  List.flatMap_assoc.symm

theorem maskAll_eq_text (s : List Char) : maskAll s = text (runs (pieces s)) := by
  rw [maskAll, ← map_masked_flatMap_pieces, flatMap_pieces_runs]

/-- The pieces that are left are pieces that are found by themselves. -/
theorem tidied_proper (s : List Char) :
    ∀ p ∈ (tidied (runs (pieces s))).flatMap Run.pieces, p.Proper := by
  intro p hp
  rcases (prunes_tidied (runs (pieces s))).mem_pieces hp with hp | rfl
  · rw [flatMap_pieces_runs] at hp
    exact pieces_proper s p hp
  · exact ⟨by decide, by decide, by decide⟩

/-- A statement is tidied up run by run. -/
theorem toList_clean (s : String) :
    (clean s).toList = written (tidied (runs (pieces s.toList))) := by
  have hspans : spans s.toList =
      ((tidied (runs (pieces s.toList))).flatMap Run.pieces).filterMap Piece.span? := by
    rw [(prunes_tidied _).spans_eq, flatMap_pieces_runs]
    rfl
  rw [clean, String.toList_ofList, maskAll_eq_text, tidy_text (maximal_runs _), hspans,
    ← map_masked_flatMap_pieces, unmask_row (tidied_proper s.toList), written_eq]

/-- Whether a rule applies somewhere in a text. -/
def Rule.occurs (rule : Rule) : Option Char → List Char → Bool
  | _, [] => false
  | before, c :: s => (rule before (c :: s)).isSome || rule.occurs (some c) s

theorem Rule.applyFrom_of_not_occurs {rule : Rule} {before : Option Char} {s : List Char}
    (h : rule.occurs before s = false) : applyFrom rule 0 before s = s := by
  induction s generalizing before with
  | nil => rfl
  | cons c s ih =>
    obtain ⟨hnone, hrest⟩ := Bool.or_eq_false_iff.1 h
    rw [applyFrom_none (by simpa using hnone), ih hrest]

theorem tidy_of_not_occurs {s : List Char}
    (h : ∀ rule ∈ rules, rule.occurs none s = false) : tidy s = s := by
  unfold tidy
  generalize rules = rules at h
  induction rules with
  | nil => rfl
  | cons rule rules ih =>
    obtain ⟨hrule, hrules⟩ := List.forall_mem_cons.1 h
    rw [List.foldl_cons, applyRule, Rule.applyFrom_of_not_occurs hrule, ih hrules]

/-- Where no rule applies outside hidden spans, nothing changes. -/
theorem clean_of_not_occurs {s : String}
    (h : ∀ rule ∈ rules, rule.occurs none (maskAll s.toList) = false) : clean s = s := by
  rw [clean, tidy_of_not_occurs h, unmask_maskAll, String.ofList_toList]

/-- What is tidied up is the statement without some words `WHERE`, `AND` and `OR`, commas and
blanks, where a space may take the place of blanks in front of the next clause. No two runs that
stay become one, and all hidden spans stay, in order. Where no rule applies, nothing changes. -/
theorem clean_prunes (s : String) :
    (∃ out, Prunes (runs (pieces s.toList)) out ∧ Maximal out ∧ (clean s).toList = written out ∧
      (out.flatMap Run.pieces).filterMap Piece.span? = spans s.toList) ∧
    ((∀ rule ∈ rules, rule.occurs none (maskAll s.toList) = false) → clean s = s) := by
  have hprunes := prunes_tidied (runs (pieces s.toList))
  refine ⟨⟨_, hprunes, (maximal_runs _).tidied, toList_clean s, ?_⟩, clean_of_not_occurs⟩
  rw [hprunes.spans_eq, flatMap_pieces_runs]
  rfl

theorem clean_prunes_ordersQuery :
    (∀ rule ∈ rules, rule.occurs none
      (maskAll "SELECT * FROM orders WHERE note <> ' WHERE AND ' ORDER BY id".toList) = false) ∧
    clean "SELECT * FROM orders WHERE note <> ' WHERE AND ' ORDER BY id" =
      "SELECT * FROM orders WHERE note <> ' WHERE AND ' ORDER BY id" := by
  have hnone : ∀ rule ∈ rules, rule.occurs none
      (maskAll "SELECT * FROM orders WHERE note <> ' WHERE AND ' ORDER BY id".toList) = false := by
    decide +kernel
  exact ⟨hnone, (clean_prunes _).2 hnone⟩

end TwoWaySql.Clause
