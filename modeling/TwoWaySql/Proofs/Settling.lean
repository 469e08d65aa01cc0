import Mathlib.Logic.Function.Iterate
import TwoWaySql.Proofs.Leftovers

/-!
# Settled statements

A statement is settled if tidying it up leaves it as it is. One pass does not settle every
statement, since a rule looks at each place once. This file

1. finds the runs of a statement again after it was tidied up, if its hidden spans stay what they
   were (`runs_clean`);
2. shows that a statement is settled exactly if no rule applies to its runs (`clean_eq_self_iff`);
3. says which statements one pass settles, by what stands in them before it, and that passes one
   after the other settle every statement (`clean_settles`).
-/

namespace TwoWaySql.Clause

open Run (occurs unsettled leftover)
open Piece (Meets KeepsLine)

/-! ## Runs of a statement that is tidied up -/

/-- Pieces that meet are found again if line comments keep their lines to themselves. -/
theorem pieces_chars {row : List Piece} (hproper : ∀ p ∈ row, p.Proper)
    (hmeets : row.IsChain Meets) (hlines : row.IsChain KeepsLine) :
    pieces (row.flatMap Piece.chars) = row := by
  induction row with
  | nil => simp [pieces]
  | cons p rest ih =>
    obtain ⟨hp, hrest⟩ := List.forall_mem_cons.1 hproper
    obtain ⟨hnext, hmeets⟩ := List.isChain_cons.1 hmeets
    obtain ⟨hline, hlines⟩ := List.isChain_cons.1 hlines
    have ih := ih hrest hmeets hlines
    have hhead := head?_chars hrest
    cases p with
    | live c =>
      -- with what comes next the character is no start of a span
      have hnone : span? (c :: rest.flatMap Piece.chars) = none := by
        refine span?_eq_none_iff.2 ⟨hp, fun d hd => ?_⟩
        rw [hhead] at hd
        obtain ⟨next, hmem, hd⟩ := Option.mem_bind_iff.1 hd
        exact hnext next hmem d hd
      show pieces (c :: rest.flatMap Piece.chars) = _
      rw [pieces_live hnone, ih]
    | hidden span =>
      have hsome : span? (span ++ rest.flatMap Piece.chars) =
          some (span, rest.flatMap Piece.chars) := by
        cases rest with
        | nil =>
          have hself : span? span = some (span, []) := hp
          simpa using hself
        | cons next more =>
          rcases hnext next rfl with hclosed | hcomment
          · exact hclosed _
          · -- a line comment ends where the line does
            obtain rfl := hline next rfl hcomment
            rw [hcomment.span?]
            show some (span ++ [], _) = _
            rw [List.append_nil]
            rfl
      show pieces (span ++ rest.flatMap Piece.chars) = _
      rw [pieces_hidden hsome, ih]

/-- Pieces are given by their masked characters and their spans. -/
theorem eq_of_masked {row other : List Piece} (hrow : ∀ p ∈ row, p.Proper)
    (hother : ∀ p ∈ other, p.Proper) (hmasked : row.map Piece.masked = other.map Piece.masked)
    (hspans : row.filterMap Piece.span? = other.filterMap Piece.span?) : row = other := by
  induction row generalizing other with
  | nil => exact (List.map_eq_nil_iff.1 hmasked.symm).symm
  | cons p rest ih =>
    cases other with
    | nil => cases hmasked
    | cons q more =>
      obtain ⟨hp, hrest⟩ := List.forall_mem_cons.1 hrow
      obtain ⟨hq, hmore⟩ := List.forall_mem_cons.1 hother
      obtain ⟨hfirst, hbehind⟩ := List.cons.inj hmasked
      -- no live character is masked as a span
      cases p with
      | live c =>
        cases q with
        | live d =>
          rw [ih hrest hmore hbehind hspans]
          exact congrArg (Piece.live · :: more) hfirst
        | hidden span => exact absurd hfirst hp.2.2
      | hidden span =>
        cases q with
        | live d => exact absurd hfirst.symm hq.2.2
        | hidden span' =>
          obtain ⟨hspan, hspans⟩ := List.cons.inj hspans
          rw [ih hrest hmore hbehind hspans]
          exact congrArg (Piece.hidden · :: more) hspan

/-- The pieces of a statement that was tidied up, if its spans stay what they are. -/
theorem pieces_clean {s : String} (h : spans (clean s).toList = spans s.toList) :
    pieces (clean s).toList = (tidied (runs (pieces s.toList))).flatMap Run.pieces := by
  obtain ⟨out, hmasked, hspans, hproper, hmeets, -⟩ :=
    exists_applyAll trimming_of_mem_rules (pieces_proper s.toList) (pieces_meet s.toList)
  have hout : out = (tidied (runs (pieces s.toList))).flatMap Run.pieces := by
    refine eq_of_masked hproper (tidied_proper s.toList) ?_ ?_
    · rw [hmasked, ← tidy_eq, map_masked_flatMap_pieces, ← tidy_text (maximal_runs _),
        ← maskAll_eq_text]
      rfl
    · rw [hspans, (prunes_tidied _).spans_eq, flatMap_pieces_runs]
  have hclean : (clean s).toList = out.flatMap Piece.chars := by
    rw [toList_clean, written_eq, hout]
  have hspans' : spans s.toList = out.filterMap Piece.span? := hspans.symm
  rw [hclean, hspans', spans_chars_iff hproper hmeets] at h
  rw [hclean, pieces_chars hproper hmeets h, hout]

theorem runs_clean {s : String} (h : spans (clean s).toList = spans s.toList) :
    runs (pieces (clean s).toList) = tidied (runs (pieces s.toList)) := by
  rw [pieces_clean h, runs_flatMap_pieces (maximal_runs _).tidied]

/-- A statement is settled exactly if no rule applies to its runs. -/
theorem clean_eq_self_iff (s : String) :
    clean s = s ↔ occurs unsettled (runs (pieces s.toList)) = false := by
  rw [← tidied_eq_self_iff]
  constructor
  · intro h
    have hruns := runs_clean (s := s) (by rw [h])
    rw [h] at hruns
    exact hruns.symm
  · intro h
    refine String.toList_inj.1 ?_
    rw [toList_clean, h, written_eq, flatMap_pieces_runs, flatMap_chars_pieces]

/-! ## Passes one after the other -/

/-- What goes away makes the text shorter: every run has a character of its own. -/
theorem Prunes.length_written {rs out : List Run} (h : Prunes rs out)
    (hrs : ∀ r ∈ rs, r.Proper) :
    (written out).length + rs.length ≤ (written rs).length + out.length := by
  have hcons (r : Run) (rest : List Run) :
      (written (r :: rest)).length = (r.pieces.flatMap Piece.chars).length +
        (written rest).length := by
    simp [written]
  have hgroup (kind : Kind) (s : List Char) :
      ((Run.group kind s).pieces.flatMap Piece.chars).length = s.length := by
    rw [Run.pieces, List.flatMap_map]
    simp [Piece.chars]
  induction h with
  | done => exact Nat.le_refl _
  | @keep rs out r hclause h ih =>
    have ih := ih (List.forall_mem_cons.1 hrs).2
    rw [hcons r rs, hcons r out, List.length_cons, List.length_cons]
    omega
  | @blanks rs out b h ih =>
    obtain ⟨hb, hrs⟩ := List.forall_mem_cons.1 hrs
    have hpos := List.length_pos_iff.2 hb.1
    have ih := ih hrs
    rw [hcons, hgroup, List.length_cons]
    omega
  | @space rs out b hclause h ih =>
    obtain ⟨hb, hrs⟩ := List.forall_mem_cons.1 hrs
    have hpos := List.length_pos_iff.2 hb.1
    have ih := ih hrs
    have hone : ([' '] : List Char).length = 1 := rfl
    rw [hcons _ rs, hcons _ out, hgroup, hgroup, hone, List.length_cons, List.length_cons]
    omega
  | @word rs out w hname h ih =>
    obtain ⟨hw, hrs⟩ := List.forall_mem_cons.1 hrs
    have hpos := List.length_pos_iff.2 hw.1
    have ih := ih hrs
    rw [hcons, hgroup, List.length_cons]
    omega
  | @comma rs out h ih =>
    have ih := ih (List.forall_mem_cons.1 hrs).2
    have hone : ((Run.piece (.live ',')).pieces.flatMap Piece.chars).length = 1 := rfl
    rw [hcons, hone, List.length_cons]
    omega

/-- A pass that does not leave a statement as it is makes it shorter. -/
theorem length_clean_lt {s : String} (h : clean s ≠ s) : (clean s).length < s.length := by
  have hmaximal := maximal_runs (pieces s.toList)
  have hlength := (prunes_tidied (runs (pieces s.toList))).length_written hmaximal.proper
  have hfewer : (tidied (runs (pieces s.toList))).length < (runs (pieces s.toList)).length := by
    refine Nat.lt_of_not_le fun hle => h ?_
    have hnone := not_occurs_of_length Run.shrinks_of_mem_rules hle
    have hself : tidied (runs (pieces s.toList)) = _ := foldl_apply_of_not_occurs hnone
    exact (clean_eq_self_iff s).2 ((tidied_eq_self_iff _).1 hself)
  have hbefore : written (runs (pieces s.toList)) = s.toList := by
    rw [written_eq, flatMap_pieces_runs, flatMap_chars_pieces]
  rw [← String.length_toList, ← String.length_toList, toList_clean]
  rw [hbefore] at hlength
  omega

/-- Some pass is the last one that changes anything: a text cannot become shorter more often than it
has characters. -/
theorem exists_settled (s : String) : ∃ n ≤ s.length, clean (clean^[n] s) = clean^[n] s := by
  induction hlength : s.length using Nat.strongRecOn generalizing s with
  | ind k ih =>
    by_cases hsettled : clean s = s
    · exact ⟨0, Nat.zero_le _, hsettled⟩
    · have hshorter := length_clean_lt hsettled
      obtain ⟨n, hn, h⟩ := ih (clean s).length (by omega) (clean s) rfl
      exact ⟨n + 1, by omega, h⟩

/-- One pass settles a statement exactly if its runs hold no leftover that one pass does not take
away, provided that its hidden spans stay what they are. It is settled exactly if no rule applies to
what is left, and after as many passes as it has characters every statement is. -/
theorem clean_settles (s : String) :
    (spans (clean s).toList = spans s.toList →
      (clean (clean s) = clean s ↔ occurs leftover (runs (pieces s.toList)) = false)) ∧
    (clean (clean s) = clean s ↔ occurs unsettled (runs (pieces (clean s).toList)) = false) ∧
    ∃ n ≤ s.length, clean (clean^[n] s) = clean^[n] s := by
  refine ⟨fun h => ?_, clean_eq_self_iff (clean s), exists_settled s⟩
  rw [clean_eq_self_iff, runs_clean h, Run.occurs_tidied (maximal_runs _)]

/-- One connective is settled by one pass, and two of each kind are not. -/
theorem clean_settles_connectives :
    clean (clean "SELECT * FROM t WHERE  AND c = 3") = clean "SELECT * FROM t WHERE  AND c = 3" ∧
      ∀ s ∈ ["SELECT * FROM t WHERE  AND  AND c = 3", "SELECT * FROM t WHERE  WHERE  ORDER BY a",
          "UPDATE t SET  ,  , c = 3", "UPDATE t SET  ,WHERE  LIMIT 1"],
        spans (clean s).toList = spans s.toList ∧ clean (clean s) ≠ clean s := by
  constructor
  · have hspans : spans (clean "SELECT * FROM t WHERE  AND c = 3").toList =
        spans "SELECT * FROM t WHERE  AND c = 3".toList := by decide +kernel
    exact ((clean_settles _).1 hspans).2 (by decide +kernel)
  · intro s hs
    have hfound : spans (clean s).toList = spans s.toList ∧
        occurs leftover (runs (pieces s.toList)) = true := by
      revert s
      decide +kernel
    refine ⟨hfound.1, fun hsettled => ?_⟩
    cases (((clean_settles s).1 hfound.1).1 hsettled).symm.trans hfound.2

/-- One pass does not settle every statement. -/
theorem not_forall_clean_settled : ¬ ∀ s : String, clean (clean s) = clean s := by
  intro h
  have hsettled := h "SELECT * FROM t WHERE  AND  AND c = 3"
  revert hsettled
  decide +kernel

end TwoWaySql.Clause
