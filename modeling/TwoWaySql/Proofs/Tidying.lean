import TwoWaySql.Clause.Cleanup
import TwoWaySql.Proofs.Masking

/-!
# Rules on rows of pieces

The rules that tidy up clauses look at a statement with masks for its hidden spans. This file
follows them on the pieces themselves. It

1. says what a match of each rule looks like (`afterWhere_eq_some`, `whereAtEnd_eq_some`,
   `whereBeforeClause_eq`, `afterSet_eq_some`);
2. says once what a match may do to a text (`Trims`) and what a rule does to a row of pieces
   (`Applied`): spans come through in order, and neighbours that meet go on to meet (`Fits`);
3. follows what stands behind each span through all rules (`exists_applyAll`);
4. concludes that the spans of a statement that is tidied up are those that it had exactly if each
   line comment is left with a line break or nothing behind it (`spans_clean_iff_behind`).
-/

namespace TwoWaySql.Clause

open Piece (Meets KeepsLine)
open Text (isBlank)

/-! ## Keywords and blanks -/

/-- The characters spell a keyword, in any case. -/
abbrev Spells (keyword taken : List Char) : Prop :=
  List.Forall₂ (fun letter c => isLetter letter c = true) keyword taken

/-- Blanks, of which there is one at least. -/
def IsBlanks (s : List Char) : Prop := s ≠ [] ∧ ∀ c ∈ s, isBlank c = true

theorem keyword?_eq_some {keyword s taken rest : List Char}
    (h : keyword? keyword s = some (taken, rest)) : s = taken ++ rest ∧ Spells keyword taken := by
  induction keyword generalizing s taken with
  | nil =>
    cases h
    exact ⟨rfl, .nil⟩
  | cons letter keyword ih =>
    cases s with
    | nil => cases h
    | cons c s =>
      rw [keyword?] at h
      split at h
      · next hletter =>
        obtain ⟨⟨inner, rest'⟩, hinner, heq⟩ := Option.map_eq_some_iff.1 h
        cases heq
        obtain ⟨rfl, hspells⟩ := ih hinner
        exact ⟨rfl, .cons hletter hspells⟩
      · cases h

theorem keyword?_append {keyword taken : List Char} (h : Spells keyword taken)
    (rest : List Char) : keyword? keyword (taken ++ rest) = some (taken, rest) := by
  induction h with
  | nil => rfl
  | cons hletter h ih => rw [List.cons_append, keyword?, if_pos hletter, ih]; rfl

theorem dropWhile_of_head? {s : List Char} (h : ∀ c ∈ s.head?, isBlank c = false) :
    s.dropWhile isBlank = s := by
  cases s with
  | nil => rfl
  | cons c s => rw [List.dropWhile_cons_of_neg (by simp [h c rfl])]

theorem dropWhile_head? (s : List Char) : ∀ c ∈ (s.dropWhile isBlank).head?, isBlank c = false := by
  intro c hc
  have hhead := List.head?_dropWhile_not isBlank s
  rw [Option.mem_def.1 hc] at hhead
  exact hhead

theorem blanks?_eq_some {s taken rest : List Char} (h : blanks? s = some (taken, rest)) :
    s = taken ++ rest ∧ IsBlanks taken ∧ ∀ c ∈ rest.head?, isBlank c = false := by
  unfold blanks? at h
  simp only at h
  split at h
  · cases h
  · next hne =>
    cases h
    have htaken : IsBlanks (s.takeWhile isBlank) :=
      ⟨by simpa using hne, fun c hc => List.mem_takeWhile_imp hc⟩
    exact ⟨List.takeWhile_append_dropWhile.symm, htaken, dropWhile_head? s⟩

theorem blanks?_append {blanks rest : List Char} (h : IsBlanks blanks)
    (hrest : ∀ c ∈ rest.head?, isBlank c = false) :
    blanks? (blanks ++ rest) = some (blanks, rest) := by
  have htake : (blanks ++ rest).takeWhile isBlank = blanks := by
    rw [List.takeWhile_append_of_pos h.2]
    cases rest with
    | nil => simp
    | cons c rest => rw [List.takeWhile_cons_of_neg (by simp [hrest c rfl]), List.append_nil]
  have hdrop : (blanks ++ rest).dropWhile isBlank = rest := by
    rw [List.dropWhile_append_of_pos h.2, dropWhile_of_head? hrest]
  simp [blanks?, htake, hdrop, h.1]

theorem blanks?_eq_none_iff {s : List Char} :
    blanks? s = none ↔ ∀ c ∈ s.head?, isBlank c = false := by
  cases s with
  | nil => exact ⟨fun _ _ => nofun, fun _ => rfl⟩
  | cons c s => cases hc : isBlank c <;> simp [blanks?, hc]

theorem keywords?_eq_some {first second : String} {s taken rest : List Char}
    (h : keywords? first second s = some (taken, rest)) :
    s = taken ++ rest ∧ ∃ one between two, taken = one ++ between ++ two ∧
      Spells first.toList one ∧ IsBlanks between ∧ Spells second.toList two := by
  obtain ⟨⟨one, s₁⟩, hone, h⟩ := Option.bind_eq_some_iff.1 h
  obtain ⟨⟨between, s₂⟩, hbetween, h⟩ := Option.bind_eq_some_iff.1 h
  obtain ⟨⟨two, s₃⟩, htwo, h⟩ := Option.bind_eq_some_iff.1 h
  cases h
  obtain ⟨rfl, hfirst⟩ := keyword?_eq_some hone
  obtain ⟨rfl, hblanks, -⟩ := blanks?_eq_some hbetween
  obtain ⟨rfl, hsecond⟩ := keyword?_eq_some htwo
  exact ⟨by simp only [List.append_assoc], one, between, two, rfl, hfirst, hblanks, hsecond⟩

theorem Spells.mask_not_mem {keyword taken : List Char} (h : Spells keyword taken)
    (hmask : mask ∉ keyword) : mask ∉ taken := by
  induction h with
  | nil => exact hmask
  | cons hletter hrest ih =>
    rw [List.mem_cons, not_or] at hmask ⊢
    refine ⟨?_, ih hmask.2⟩
    rintro rfl
    simp only [isLetter, Bool.or_eq_true, beq_iff_eq, Bool.and_eq_true] at hletter
    rcases hletter with hletter | ⟨-, hletter⟩
    · exact hmask.1 hletter
    · cases hletter

theorem IsBlanks.mask_not_mem {s : List Char} (h : IsBlanks s) : mask ∉ s := by
  intro hmem
  have hblank := h.2 mask hmem
  revert hblank
  decide

theorem nextClause?_eq_some {s next rest : List Char} (h : nextClause? s = some (next, rest)) :
    s = next ++ rest ∧ mask ∉ next := by
  have ofWord {keyword : String} (h : keyword? keyword.toList s = some (next, rest))
      (hmask : mask ∉ keyword.toList) : s = next ++ rest ∧ mask ∉ next := by
    obtain ⟨heq, hspells⟩ := keyword?_eq_some h
    exact ⟨heq, hspells.mask_not_mem hmask⟩
  have ofWords {first second : String} (h : keywords? first second s = some (next, rest))
      (hfirst : mask ∉ first.toList) (hsecond : mask ∉ second.toList) :
      s = next ++ rest ∧ mask ∉ next := by
    obtain ⟨heq, one, between, two, rfl, hone, hbetween, htwo⟩ := keywords?_eq_some h
    refine ⟨heq, ?_⟩
    rw [List.mem_append, List.mem_append, not_or, not_or]
    exact ⟨⟨hone.mask_not_mem hfirst, hbetween.mask_not_mem⟩, htwo.mask_not_mem hsecond⟩
  obtain ⟨⟨taken, rest'⟩, halt, h⟩ := Option.bind_eq_some_iff.1 h
  simp only at h
  split at h
  · cases h
  · cases h
    simp only [Option.orElse_eq_orElse, Option.orElse_eq_or, Option.or_eq_some_iff] at halt
    rcases halt with h | ⟨-, h | ⟨-, h | ⟨-, h | ⟨-, h | ⟨-, h⟩⟩⟩⟩⟩
    · exact ofWords h (by decide) (by decide)
    · exact ofWords h (by decide) (by decide)
    · exact ofWord h (by decide)
    · exact ofWord h (by decide)
    · exact ofWord h (by decide)
    · exact ofWords h (by decide) (by decide)

/-! ## The rules in steps -/

/-- A `WHERE` behind blanks at the start of a text, and what follows it. -/
def where? (s : List Char) : Option (List Char × List Char) := do
  let (blanks, s) ← blanks? s
  let (clause, s) ← keyword? "WHERE".toList s
  return (blanks ++ clause, s)

/-- Blanks, a conjunction with the blanks behind it, and what follows them. -/
def conjunction? (s : List Char) : Option (List Char × List Char × List Char) := do
  let (blanks, s) ← blanks? s
  let (conjunction, s) ← keyword? "AND".toList s <|> keyword? "OR".toList s
  let (behind, s) ← blanks? s
  return (blanks, conjunction ++ behind, s)

theorem where?_eq_some {s taken rest : List Char} (h : where? s = some (taken, rest)) :
    s = taken ++ rest ∧ ∃ blanks clause, taken = blanks ++ clause ∧ IsBlanks blanks ∧
      Spells "WHERE".toList clause := by
  obtain ⟨⟨blanks, s₁⟩, hblanks, h⟩ := Option.bind_eq_some_iff.1 h
  obtain ⟨⟨clause, s₂⟩, hclause, h⟩ := Option.bind_eq_some_iff.1 h
  cases h
  obtain ⟨rfl, hfirst, -⟩ := blanks?_eq_some hblanks
  obtain ⟨rfl, hspells⟩ := keyword?_eq_some hclause
  exact ⟨by rw [List.append_assoc], blanks, clause, rfl, hfirst, hspells⟩

theorem conjunction?_eq_some {s blanks dropped rest : List Char}
    (h : conjunction? s = some (blanks, dropped, rest)) :
    s = blanks ++ dropped ++ rest ∧ IsBlanks blanks ∧
      ∃ conjunction behind, dropped = conjunction ++ behind ∧
        (Spells "AND".toList conjunction ∨ Spells "OR".toList conjunction) ∧ IsBlanks behind := by
  obtain ⟨⟨blanks', s₁⟩, hblanks, h⟩ := Option.bind_eq_some_iff.1 h
  obtain ⟨⟨conjunction, s₂⟩, hconjunction, h⟩ := Option.bind_eq_some_iff.1 h
  obtain ⟨⟨behind, s₃⟩, hbehind, h⟩ := Option.bind_eq_some_iff.1 h
  cases h
  obtain ⟨rfl, hfirst, -⟩ := blanks?_eq_some hblanks
  obtain ⟨rfl, hlast, -⟩ := blanks?_eq_some hbehind
  simp only [Option.orElse_eq_orElse, Option.orElse_eq_or, Option.or_eq_some_iff] at hconjunction
  have hspells : s₁ = conjunction ++ (behind ++ rest) ∧
      (Spells "AND".toList conjunction ∨ Spells "OR".toList conjunction) := by
    rcases hconjunction with h | ⟨-, h⟩
    · exact (keyword?_eq_some h).imp_right .inl
    · exact (keyword?_eq_some h).imp_right .inr
  obtain ⟨rfl, hspells⟩ := hspells
  exact ⟨by simp only [List.append_assoc], hfirst, conjunction, behind, rfl, hspells, hlast⟩

theorem afterWhere_eq (before : Option Char) (s : List Char) :
    afterWhere before s =
      if before.any Text.isWord then none
      else (keyword? "WHERE".toList s).bind fun (clause, s) =>
        (conjunction? s).map fun (blanks, dropped, _) =>
          ⟨clause ++ blanks ++ dropped, clause ++ blanks⟩ := by
  unfold afterWhere conjunction?
  split
  · rfl
  · simp only [Option.map_eq_bind, Option.bind_eq_bind, Option.bind_assoc, List.append_assoc]
    rfl

theorem afterWhere_eq_some {before : Option Char} {s : List Char} {m : Match}
    (h : afterWhere before s = some m) :
    ∃ clause blanks dropped rest, s = clause ++ blanks ++ dropped ++ rest ∧
      m = ⟨clause ++ blanks ++ dropped, clause ++ blanks⟩ ∧ Spells "WHERE".toList clause ∧
      conjunction? (blanks ++ dropped ++ rest) = some (blanks, dropped, rest) := by
  rw [afterWhere_eq] at h
  split at h
  · cases h
  · obtain ⟨⟨clause, s₁⟩, hclause, h⟩ := Option.bind_eq_some_iff.1 h
    obtain ⟨⟨blanks, dropped, rest⟩, hconjunction, rfl⟩ := Option.map_eq_some_iff.1 h
    obtain ⟨rfl, hspells⟩ := keyword?_eq_some hclause
    obtain ⟨rfl, -⟩ := conjunction?_eq_some hconjunction
    exact ⟨clause, blanks, dropped, rest, by simp only [List.append_assoc], rfl, hspells,
      hconjunction⟩

theorem whereAtEnd_eq (before : Option Char) (s : List Char) :
    whereAtEnd before s = (where? s).bind fun (taken, s) =>
      match s.dropWhile isBlank with
      | [] => some ⟨taken ++ s.takeWhile isBlank, []⟩
      | c :: _ =>
        if c = ')' || c = ';' then some ⟨taken ++ s.takeWhile isBlank ++ [c], [c]⟩ else none := by
  rw [whereAtEnd, where?]
  cases blanks? s with
  | none => rfl
  | some found =>
    obtain ⟨blanks, t⟩ := found
    show (keyword? "WHERE".toList t).bind _ = ((keyword? "WHERE".toList t).bind _).bind _
    cases keyword? "WHERE".toList t with
    | none => rfl
    | some found => rfl

theorem whereAtEnd_eq_some {before : Option Char} {s : List Char} {m : Match}
    (h : whereAtEnd before s = some m) :
    ∃ taken t, where? s = some (taken, t) ∧
      (t.dropWhile isBlank = [] ∧ m = ⟨taken ++ t.takeWhile isBlank, []⟩ ∨
        ∃ c rest, t.dropWhile isBlank = c :: rest ∧ (c = ')' ∨ c = ';') ∧
          m = ⟨taken ++ t.takeWhile isBlank ++ [c], [c]⟩) := by
  rw [whereAtEnd_eq] at h
  obtain ⟨⟨taken, t⟩, hwhere, hm⟩ := Option.bind_eq_some_iff.1 h
  refine ⟨taken, t, hwhere, ?_⟩
  simp only at hm
  split at hm
  · next hend => exact .inl ⟨hend, (Option.some.inj hm).symm⟩
  · next c rest hrest =>
    split at hm
    · next hc =>
      have hclose : c = ')' ∨ c = ';' := by simpa using hc
      exact .inr ⟨c, rest, hrest, hclose, (Option.some.inj hm).symm⟩
    · cases hm

theorem whereAtEnd_eq_none {before : Option Char} {s taken t : List Char}
    (h : whereAtEnd before s = none) (hwhere : where? s = some (taken, t)) :
    ∃ c rest, t.dropWhile isBlank = c :: rest ∧ c ≠ ')' ∧ c ≠ ';' := by
  rw [whereAtEnd_eq, hwhere, Option.bind_some] at h
  simp only at h
  split at h
  · cases h
  · next c rest hrest =>
    split at h
    · cases h
    · next hc =>
      have hopen : c ≠ ')' ∧ c ≠ ';' := by simpa using hc
      exact ⟨c, rest, hrest, hopen⟩

theorem whereBeforeClause_eq (before : Option Char) (s : List Char) :
    whereBeforeClause before s = (where? s).bind fun (taken, s) =>
      (blanks? s).bind fun (between, s) =>
        (nextClause? s).map fun (next, _) => ⟨taken ++ between ++ next, ' ' :: next⟩ := by
  simp only [whereBeforeClause, where?, Option.map_eq_bind, Option.bind_eq_bind, Option.bind_assoc]
  rfl

theorem afterSet_eq_some {before : Option Char} {s : List Char} {m : Match}
    (h : afterSet before s = some m) :
    ∃ clause blanks rest, s = clause ++ blanks ++ ',' :: rest ∧
      m = ⟨clause ++ blanks ++ ',' :: rest.takeWhile isBlank, clause ++ blanks⟩ ∧
      Spells "SET".toList clause ∧ IsBlanks blanks := by
  unfold afterSet at h
  split at h
  · cases h
  · obtain ⟨⟨clause, s₁⟩, hclause, h⟩ := Option.bind_eq_some_iff.1 h
    obtain ⟨⟨blanks, s₂⟩, hblanks, h⟩ := Option.bind_eq_some_iff.1 h
    simp only at h
    split at h
    · next rest =>
      cases h
      obtain ⟨rfl, hspells⟩ := keyword?_eq_some hclause
      obtain ⟨rfl, hfirst, -⟩ := blanks?_eq_some hblanks
      exact ⟨clause, blanks, rest, by rw [List.append_assoc], rfl, hspells, hfirst⟩
    · cases h

/-! ## What a rule does to neighbours -/

/-- What a match may do to a text: it takes away what follows a blank, or what is in front of a
closing character, or what is in front of a blank that it puts there, or the whole text. -/
inductive Trims : List Char → Match → Prop
  | behind (kept dropped rest : List Char) (blank : Char) (h : isBlank blank = true) :
    Trims (kept ++ [blank] ++ dropped ++ rest) ⟨kept ++ [blank] ++ dropped, kept ++ [blank]⟩
  | closing (dropped rest : List Char) (c : Char) (h : c = ')' ∨ c = ';') :
    Trims (dropped ++ [c] ++ rest) ⟨dropped ++ [c], [c]⟩
  | blank (dropped next rest : List Char) :
    Trims (dropped ++ next ++ rest) ⟨dropped ++ next, ' ' :: next⟩
  | all (dropped : List Char) : Trims dropped ⟨dropped, []⟩

theorem Trims.taken_append {s : List Char} {m : Match} (h : Trims s m) :
    ∃ rest, s = m.taken ++ rest := by
  cases h with
  | behind kept dropped rest blank h => exact ⟨rest, rfl⟩
  | closing dropped rest c h => exact ⟨rest, rfl⟩
  | blank dropped next rest => exact ⟨rest, rfl⟩
  | all => exact ⟨[], (List.append_nil _).symm⟩

theorem Trims.mem_kept {s : List Char} {m : Match} (h : Trims s m) :
    ∀ c ∈ m.kept, c ∈ m.taken ∨ c = ' ' := by
  intro d hd
  cases h with
  | behind kept dropped rest blank h => exact .inl (List.mem_append_left dropped hd)
  | closing dropped rest c h => exact .inl (List.mem_append_right dropped hd)
  | blank dropped next rest =>
    rcases List.mem_cons.1 hd with hd | hd
    · exact .inr hd
    · exact .inl (List.mem_append_right dropped hd)
  | all => cases hd

/-- A rule that takes characters only, and trims. -/
def Rule.Trimming (rule : Rule) : Prop :=
  ∀ before s m, rule before s = some m → Trims s m ∧ m.taken ≠ [] ∧ mask ∉ m.taken

theorem IsBlanks.exists_last {s : List Char} (h : IsBlanks s) :
    ∃ front blank, s = front ++ [blank] ∧ isBlank blank = true := by
  obtain rfl | ⟨front, blank, rfl⟩ := List.eq_nil_or_concat s
  · exact absurd rfl h.1
  · rw [List.concat_eq_append] at h ⊢
    exact ⟨front, blank, rfl, h.2 blank (by simp)⟩

theorem afterWhere_trimming : Rule.Trimming afterWhere := by
  intro before s m h
  obtain ⟨clause, blanks, dropped, rest, rfl, rfl, hspells, hconjunction⟩ := afterWhere_eq_some h
  obtain ⟨-, hblanks, conjunction, behind, rfl, hword, hbehind⟩ :=
    conjunction?_eq_some hconjunction
  have hmask : mask ∉ conjunction := by
    rcases hword with hword | hword <;> exact hword.mask_not_mem (by decide)
  have hclauseMask := hspells.mask_not_mem (by decide)
  refine ⟨?_, ?_, ?_⟩
  · obtain ⟨front, blank, rfl, hblank⟩ := hblanks.exists_last
    simpa using Trims.behind (clause ++ front) (conjunction ++ behind) rest blank hblank
  · simp [hblanks.1]
  · simp [hclauseMask, hblanks.mask_not_mem, hmask, hbehind.mask_not_mem]

theorem where?_mask_not_mem {s taken rest : List Char} (h : where? s = some (taken, rest)) :
    taken ≠ [] ∧ mask ∉ taken := by
  obtain ⟨-, blanks, clause, rfl, hblanks, hclause⟩ := where?_eq_some h
  refine ⟨by simp [hblanks.1], ?_⟩
  rw [List.mem_append, not_or]
  exact ⟨hblanks.mask_not_mem, hclause.mask_not_mem (by decide)⟩

theorem mask_not_mem_takeWhile (s : List Char) : mask ∉ s.takeWhile isBlank := by
  intro hmem
  have hblank := List.mem_takeWhile_imp hmem
  revert hblank
  decide

theorem whereAtEnd_trimming : Rule.Trimming whereAtEnd := by
  intro before s m h
  obtain ⟨taken, t, hwhere, hm⟩ := whereAtEnd_eq_some h
  obtain ⟨hne, hmask⟩ := where?_mask_not_mem hwhere
  obtain ⟨rfl, -⟩ := where?_eq_some hwhere
  have ht : t = t.takeWhile isBlank ++ t.dropWhile isBlank :=
    List.takeWhile_append_dropWhile.symm
  rcases hm with ⟨hend, rfl⟩ | ⟨c, rest, hrest, hc, rfl⟩
  · rw [hend, List.append_nil] at ht
    refine ⟨?_, by simp [hne], by simp [hmask, mask_not_mem_takeWhile]⟩
    rw [← ht]
    exact .all _
  · have hcmask : mask ≠ c := by rcases hc with rfl | rfl <;> decide
    rw [hrest] at ht
    refine ⟨?_, by simp, by simp [hmask, mask_not_mem_takeWhile, hcmask]⟩
    have htrims := Trims.closing (taken ++ t.takeWhile isBlank) rest c hc
    rwa [List.append_assoc, List.append_assoc, List.singleton_append, ← ht] at htrims

theorem whereBeforeClause_trimming : Rule.Trimming whereBeforeClause := by
  intro before s m h
  rw [whereBeforeClause_eq] at h
  obtain ⟨⟨taken, t⟩, hwhere, h⟩ := Option.bind_eq_some_iff.1 h
  obtain ⟨⟨between, u⟩, hbetween, h⟩ := Option.bind_eq_some_iff.1 h
  obtain ⟨⟨next, rest⟩, hnext, rfl⟩ := Option.map_eq_some_iff.1 h
  obtain ⟨hne, hmask⟩ := where?_mask_not_mem hwhere
  obtain ⟨rfl, -⟩ := where?_eq_some hwhere
  obtain ⟨rfl, hblanks, -⟩ := blanks?_eq_some hbetween
  obtain ⟨rfl, hnextMask⟩ := nextClause?_eq_some hnext
  refine ⟨?_, by simp [hne], by simp [hmask, hblanks.mask_not_mem, hnextMask]⟩
  simpa using Trims.blank (taken ++ between) next rest

theorem afterSet_trimming : Rule.Trimming afterSet := by
  intro before s m h
  obtain ⟨clause, blanks, rest, rfl, rfl, hspells, hblanks⟩ := afterSet_eq_some h
  have hclauseMask := hspells.mask_not_mem (by decide)
  have hcomma : mask ≠ ',' := by decide
  refine ⟨?_, by simp, ?_⟩
  · obtain ⟨front, blank, rfl, hblank⟩ := hblanks.exists_last
    simpa using Trims.behind (clause ++ front) (',' :: rest.takeWhile isBlank)
      (rest.dropWhile isBlank) blank hblank
  · simp [hclauseMask, hblanks.mask_not_mem, hcomma, mask_not_mem_takeWhile]

theorem trimming_of_mem_rules : ∀ rule ∈ rules, rule.Trimming := by
  simp [rules, afterWhere_trimming, whereAtEnd_trimming, whereBeforeClause_trimming,
    afterSet_trimming]

/-! ## Steps of a rule -/

theorem applyFrom_none {rule : Rule} {before : Option Char} {c : Char} {s : List Char}
    (h : rule before (c :: s) = none) :
    applyFrom rule 0 before (c :: s) = c :: applyFrom rule 0 (some c) s := by
  rw [applyFrom, h]

theorem getLast?_cons_or (c : Char) (s : List Char) (before : Option Char) :
    (c :: s).getLast?.or before = s.getLast?.or (some c) := by
  rw [List.getLast?_cons]
  cases s.getLast? <;> rfl

theorem applyFrom_skip (rule : Rule) (before : Option Char) (skipped s : List Char) :
    applyFrom rule skipped.length before (skipped ++ s) =
      applyFrom rule 0 (skipped.getLast?.or before) s := by
  induction skipped generalizing before with
  | nil => rfl
  | cons c skipped ih =>
    rw [List.length_cons, List.cons_append, applyFrom, ih, getLast?_cons_or]

theorem applyFrom_some {rule : Rule} {before : Option Char} {m : Match} {s : List Char}
    (h : rule before (m.taken ++ s) = some m) (hne : m.taken ≠ []) :
    applyFrom rule 0 before (m.taken ++ s) =
      m.kept ++ applyFrom rule 0 m.taken.getLast? s := by
  obtain ⟨c, skipped, htaken⟩ := List.exists_cons_of_ne_nil hne
  rw [htaken, List.cons_append] at h ⊢
  have hlength : m.taken.length - 1 = skipped.length := by rw [htaken]; rfl
  rw [applyFrom, h]
  show m.kept ++ applyFrom rule (m.taken.length - 1) (some c) (skipped ++ s) = _
  rw [hlength, applyFrom_skip, ← getLast?_cons_or c skipped none, Option.or_none]

theorem head?_applyFrom_none {rule : Rule} {before : Option Char} {s : List Char}
    (h : rule before s = none) : (applyFrom rule 0 before s).head? = s.head? := by
  cases s with
  | nil => rfl
  | cons c s => rw [applyFrom_none h]; rfl

/-- Where a rule applies, what it leaves comes first, if it leaves anything at all. -/
theorem head?_applyFrom_some {rule : Rule} (hrule : rule.Trimming) {before : Option Char}
    {s : List Char} {m : Match} (h : rule before s = some m) :
    (applyFrom rule 0 before s).head? = m.kept.head? := by
  obtain ⟨htrims, hne, -⟩ := hrule _ _ _ h
  obtain ⟨rest, hrest⟩ := htrims.taken_append
  rw [hrest] at h ⊢
  rw [applyFrom_some h hne]
  cases htrims with
  | behind kept dropped rest blank h => simp
  | closing dropped rest c h => rfl
  | blank dropped next rest => rfl
  | all =>
    obtain rfl : rest = [] := by simpa using hrest
    rfl

/-! ## Rules on rows -/

namespace Piece

theorem meets_of_blank {c : Char} (h : isBlank c = true) (next : Piece) :
    Meets (.live c) next := by
  rintro d - (⟨rfl, -⟩ | ⟨rfl, -⟩)
  · revert h
    decide
  · revert h
    decide

/-- What has a neighbour may have any other one that ends no opening. -/
theorem Meets.replace {p next : Piece} {c : Char} (h : Meets p next) (hc : c ≠ '-' ∧ c ≠ '*') :
    Meets p (.live c) := by
  cases p with
  | hidden span => exact h
  | live first =>
    intro d hd hopens
    obtain rfl : c = d := Option.some.inj hd
    rcases hopens with ⟨-, rfl⟩ | ⟨-, rfl⟩
    · exact hc.1 rfl
    · exact hc.2 rfl

end Piece

/-- A row fits where another one stands if neighbours that meet go on to meet. -/
def Fits (row out : List Piece) : Prop :=
  ∀ front : List Piece, (front ++ row).IsChain Meets → (front ++ out).IsChain Meets

namespace Fits

variable {row out : List Piece}

theorem isChain (h : Fits row out) (hrow : row.IsChain Meets) : out.IsChain Meets :=
  h [] hrow

theorem append_left (h : Fits row out) (front : List Piece) :
    Fits (front ++ row) (front ++ out) := by
  intro first hfirst
  rw [← List.append_assoc] at hfirst ⊢
  exact h _ hfirst

/-- What follows a blank may go away. -/
theorem behind {blank : Char} (hblank : isBlank blank = true) (dropped : List Piece)
    (h : Fits row out) : Fits (.live blank :: (dropped ++ row)) (.live blank :: out) := by
  intro front hfront
  rw [List.append_cons] at hfront ⊢
  obtain ⟨hkept, hrest, -⟩ := List.isChain_append.1 hfront
  have hout : out.IsChain Meets := h.isChain (List.isChain_append.1 hrest).2.1
  refine List.isChain_append.2 ⟨hkept, hout, fun p hp q _ => ?_⟩
  rw [List.getLast?_append] at hp
  obtain rfl : Piece.live blank = p := Option.some.inj hp
  exact Piece.meets_of_blank hblank q

/-- A character that ends no opening may come first wherever something stood. -/
theorem isChain_replace {front : List Piece} {c : Char} (hc : c ≠ '-' ∧ c ≠ '*')
    (hrow : (front ++ row).IsChain Meets) (hne : row ≠ [])
    (hout : (.live c :: out : List Piece).IsChain Meets) :
    (front ++ .live c :: out).IsChain Meets := by
  obtain ⟨next, rest, rfl⟩ := List.exists_cons_of_ne_nil hne
  obtain ⟨hfront, -, hjunction⟩ := List.isChain_append.1 hrow
  refine List.isChain_append.2 ⟨hfront, hout, fun p hp q hq => ?_⟩
  obtain rfl : Piece.live c = q := Option.some.inj hq
  exact (hjunction p hp next rfl).replace hc

/-- What is in front of such a character may go away. -/
theorem closing {c : Char} (hc : c ≠ '-' ∧ c ≠ '*') (dropped : List Piece) (h : Fits row out) :
    Fits (dropped ++ .live c :: row) (.live c :: out) := by
  intro front hfront
  have hlast : (.live c :: row : List Piece).IsChain Meets :=
    (List.isChain_append.1 (List.isChain_append.1 hfront).2.1).2.1
  exact isChain_replace hc hfront (by simp) (h [.live c] hlast)

/-- A blank may take the place of what is in front of a row. -/
theorem blank {dropped : List Piece} (hne : dropped ++ row ≠ []) (h : Fits row out) :
    Fits (dropped ++ row) (.live ' ' :: out) := by
  intro front hfront
  have hout : out.IsChain Meets :=
    h.isChain (List.isChain_append.1 (List.isChain_append.1 hfront).2.1).2.1
  have hblank : (.live ' ' :: out : List Piece).IsChain Meets :=
    List.isChain_cons.2 ⟨fun q _ => Piece.meets_of_blank rfl q, hout⟩
  exact isChain_replace (by decide) hfront hne hblank

end Fits

/-- A rule applied to a row of pieces: it looks at the masks, and takes and leaves characters. -/
inductive Applied (rule : Rule) : Option Char → List Piece → List Piece → Prop
  | done (before : Option Char) : Applied rule before [] []
  | keep {before : Option Char} {p : Piece} {row out : List Piece}
    (hnone : rule before ((p :: row).map Piece.masked) = none)
    (h : Applied rule (some p.masked) row out) : Applied rule before (p :: row) (p :: out)
  | change {before : Option Char} {m : Match} {row out : List Piece}
    (hsome : rule before (m.taken ++ row.map Piece.masked) = some m)
    (h : Applied rule m.taken.getLast? row out) :
    Applied rule before (m.taken.map .live ++ row) (m.kept.map .live ++ out)

theorem map_masked_live (s : List Char) : (s.map Piece.live).map Piece.masked = s := by
  rw [List.map_map]
  exact List.map_id s

/-- Where a masked row starts with characters, so does the row. -/
theorem exists_live_append {row : List Piece} {taken rest : List Char}
    (h : row.map Piece.masked = taken ++ rest) (hmask : mask ∉ taken) :
    ∃ behind, row = taken.map .live ++ behind ∧ behind.map Piece.masked = rest := by
  obtain ⟨front, behind, rfl, hfront, rfl⟩ := List.map_eq_append_iff.1 h
  refine ⟨behind, ?_, rfl⟩
  congr 1
  subst hfront
  rw [List.map_map]
  refine (List.map_id front).symm.trans (List.map_congr_left fun p hp => ?_)
  cases p with
  | live c => rfl
  | hidden span => exact absurd (List.mem_map_of_mem (f := Piece.masked) hp) hmask

/-- Every row has what a rule makes of it. -/
theorem exists_applied {rule : Rule} (hrule : rule.Trimming) (before : Option Char)
    (row : List Piece) : ∃ out, Applied rule before row out := by
  induction hlength : row.length using Nat.strongRecOn generalizing before row with
  | ind n ih =>
    cases row with
    | nil => exact ⟨[], .done before⟩
    | cons p row =>
      cases hm : rule before ((p :: row).map Piece.masked) with
      | none =>
        obtain ⟨out, hout⟩ := ih row.length (by simp [← hlength]) (some p.masked) row rfl
        exact ⟨p :: out, .keep hm hout⟩
      | some m =>
        obtain ⟨htrims, hne, hmask⟩ := hrule _ _ _ hm
        obtain ⟨rest, hrest⟩ := htrims.taken_append
        obtain ⟨behind, hbehind, rfl⟩ := exists_live_append hrest hmask
        have hshorter : behind.length < n := by
          have hpos := List.length_pos_iff.2 hne
          rw [← hlength, hbehind, List.length_append, List.length_map]
          omega
        obtain ⟨out, hout⟩ := ih behind.length hshorter m.taken.getLast? behind rfl
        rw [hbehind]
        exact ⟨m.kept.map .live ++ out, .change (hrest ▸ hm) hout⟩

namespace Applied

variable {rule : Rule} {before : Option Char} {row out : List Piece}

/-- On the masks, a rule does what it does to a text. -/
theorem map_masked (h : Applied rule before row out) (hrule : rule.Trimming) :
    out.map Piece.masked = applyFrom rule 0 before (row.map Piece.masked) := by
  induction h with
  | done before => rfl
  | keep hnone h ih =>
    rw [List.map_cons, List.map_cons, applyFrom_none hnone, ih]
  | change hsome h ih =>
    rw [List.map_append, List.map_append, map_masked_live, map_masked_live,
      applyFrom_some hsome (hrule _ _ _ hsome).2.1, ih]

theorem spans_eq (h : Applied rule before row out) :
    out.filterMap Piece.span? = row.filterMap Piece.span? := by
  have hlive (s : List Char) : (s.map Piece.live).filterMap Piece.span? = [] := by
    rw [List.filterMap_map]
    exact List.filterMap_eq_nil_iff.2 fun _ _ => rfl
  induction h with
  | done before => rfl
  | @keep before p row out hnone h ih =>
    rw [List.filterMap_cons, List.filterMap_cons, ih]
  | change hsome h ih =>
    rw [List.filterMap_append, List.filterMap_append, hlive, hlive, ih]

theorem proper (h : Applied rule before row out) (hrule : rule.Trimming)
    (hrow : ∀ p ∈ row, p.Proper) : ∀ p ∈ out, p.Proper := by
  induction h with
  | done before => exact hrow
  | keep hnone h ih =>
    rw [List.forall_mem_cons] at hrow ⊢
    exact ⟨hrow.1, ih hrow.2⟩
  | @change before m row out hsome h ih =>
    rw [List.forall_mem_append] at hrow ⊢
    refine ⟨?_, ih hrow.2⟩
    intro p hp
    obtain ⟨c, hc, rfl⟩ := List.mem_map.1 hp
    rcases (hrule _ _ _ hsome).1.mem_kept c hc with hc | rfl
    · exact hrow.1 _ (List.mem_map_of_mem hc)
    · exact ⟨by decide, by decide, by decide⟩

theorem eq_nil (h : Applied rule before [] out) (hrule : rule.Trimming) : out = [] := by
  have hmasked := h.map_masked hrule
  exact List.map_eq_nil_iff.1 hmasked

/-- What a rule that trims makes of a row fits where the row stands. -/
theorem fits (h : Applied rule before row out) (hrule : rule.Trimming) : Fits row out := by
  induction h with
  | done before => exact fun front hfront => hfront
  | @keep before p row out hnone h ih => exact ih.append_left [p]
  | @change before m row out hsome h ih =>
    obtain ⟨htrims, hne, -⟩ := hrule _ _ _ hsome
    generalize hs : m.taken ++ row.map Piece.masked = s at htrims
    cases htrims with
    | behind kept dropped rest blank hblank =>
      simpa using (ih.behind hblank (dropped.map .live)).append_left (kept.map .live)
    | closing dropped rest c hc =>
      have hends : c ≠ '-' ∧ c ≠ '*' := by rcases hc with rfl | rfl <;> decide
      simpa using ih.closing hends (dropped.map .live)
    | blank dropped next rest =>
      have hfull : dropped.map Piece.live ++ (next.map .live ++ row) ≠ [] := by
        intro hnil
        simp only [List.append_eq_nil_iff, List.map_eq_nil_iff] at hnil
        exact hne (by rw [hnil.1, hnil.2.1]; rfl)
      simpa using (ih.append_left (next.map .live)).blank hfull
    | all =>
      obtain rfl : row = [] := by simpa using hs
      obtain rfl := h.eq_nil hrule
      intro front hfront
      rw [List.append_nil] at hfront
      rw [List.map_nil, List.append_nil, List.append_nil]
      exact (List.isChain_append.1 hfront).1

end Applied

/-! ## What follows a span -/

/-- The spans of a row, each with what follows it. -/
def followed : List Piece → List (List Char × List Piece)
  | [] => []
  | .live _ :: rest => followed rest
  | .hidden span :: rest => (span, rest) :: followed rest

theorem mem_followed {row : List Piece} {span : List Char} {behind : List Piece} :
    (span, behind) ∈ followed row ↔ ∃ front, row = front ++ .hidden span :: behind := by
  induction row with
  | nil => simp [followed]
  | cons p rest ih =>
    cases p with
    | live c =>
      rw [followed, ih]
      constructor
      · rintro ⟨front, rfl⟩
        exact ⟨.live c :: front, rfl⟩
      · rintro ⟨_ | ⟨q, front⟩, hrow⟩
        · cases hrow
        · exact ⟨front, (List.cons.inj hrow).2⟩
    | hidden found =>
      rw [followed, List.mem_cons, ih]
      constructor
      · rintro (heq | ⟨front, rfl⟩)
        · cases heq
          exact ⟨[], rfl⟩
        · exact ⟨.hidden found :: front, rfl⟩
      · rintro ⟨_ | ⟨q, front⟩, hrow⟩
        · cases hrow
          exact .inl rfl
        · exact .inr ⟨front, (List.cons.inj hrow).2⟩

theorem followed_live (s : List Char) (row : List Piece) :
    followed (s.map .live ++ row) = followed row := by
  induction s with
  | nil => rfl
  | cons c s ih => exact ih

theorem Applied.followed_iff {rule : Rule} {before : Option Char} {row out : List Piece}
    (h : Applied rule before row out) (hrule : rule.Trimming)
    (P : List Char → List Char → Prop) :
    (∀ t ∈ followed out, P t.1 (t.2.map Piece.masked)) ↔
      ∀ t ∈ followed row, P t.1 (applyFrom rule 0 (some mask) (t.2.map Piece.masked)) := by
  induction h with
  | done before => exact ⟨fun _ => nofun, fun _ => nofun⟩
  | @keep before p row out hnone h ih =>
    cases p with
    | live c => exact ih
    | hidden span =>
      have hbehind : out.map Piece.masked = applyFrom rule 0 (some mask) (row.map Piece.masked) :=
        h.map_masked hrule
      rw [followed, followed, List.forall_mem_cons, List.forall_mem_cons, ih, hbehind]
  | change hsome h ih => rw [followed_live, followed_live, ih]

/-- Line comments keep their lines to themselves if a line break or nothing follows each one. -/
theorem keepsLine_iff (row : List Piece) : row.IsChain KeepsLine ↔
    ∀ t ∈ followed row, IsLineComment t.1 → ∀ c ∈ (t.2.map Piece.masked).head?, c = '\n' := by
  induction row with
  | nil => exact ⟨fun _ => nofun, fun _ => .nil⟩
  | cons p rest ih =>
    rw [List.isChain_cons, ih]
    cases p with
    | live c => exact ⟨And.right, fun h => ⟨fun _ _ => trivial, h⟩⟩
    | hidden span =>
      rw [followed, List.forall_mem_cons]
      refine and_congr_left fun _ => ?_
      -- only a line break has a line break for its mask
      have hmasked (next : Piece) : next.masked = '\n' ↔ next = .live '\n' := by
        cases next with
        | live c => exact ⟨congrArg Piece.live, Piece.live.inj⟩
        | hidden span => exact ⟨fun h : mask = '\n' => absurd h (by decide), nofun⟩
      cases rest with
      | nil => exact ⟨fun _ _ => nofun, fun _ => nofun⟩
      | cons next rest =>
        constructor
        · intro h hline c hc
          obtain rfl : next.masked = c := Option.some.inj hc
          exact (hmasked next).2 (h next rfl hline)
        · intro h q hq hline
          obtain rfl : next = q := Option.some.inj hq
          exact (hmasked next).1 (h hline _ rfl)

/-- What rules one after the other make of a text behind the given character. -/
def applyAll (rules : List Rule) (before : Option Char) (s : List Char) : List Char :=
  rules.foldl (fun s rule => applyFrom rule 0 before s) s

theorem tidy_eq (s : List Char) : tidy s = applyAll rules none s := rfl

/-- Rules that trim, one after the other: the row that they leave has the same spans, its neighbours
meet, and what follows a span is what they make of what followed it. -/
theorem exists_applyAll {rules : List Rule} (hrules : ∀ rule ∈ rules, rule.Trimming)
    {row : List Piece} (hproper : ∀ p ∈ row, p.Proper) (hmeets : row.IsChain Meets) :
    ∃ out : List Piece, out.map Piece.masked = applyAll rules none (row.map Piece.masked) ∧
      out.filterMap Piece.span? = row.filterMap Piece.span? ∧
      (∀ p ∈ out, p.Proper) ∧ out.IsChain Meets ∧
      ∀ P : List Char → List Char → Prop,
        (∀ t ∈ followed out, P t.1 (t.2.map Piece.masked)) ↔
          ∀ t ∈ followed row, P t.1 (applyAll rules (some mask) (t.2.map Piece.masked)) := by
  induction rules generalizing row with
  | nil => exact ⟨row, rfl, rfl, hproper, hmeets, fun _ => Iff.rfl⟩
  | cons rule rules ih =>
    obtain ⟨hrule, hrules⟩ := List.forall_mem_cons.1 hrules
    obtain ⟨next, happlied⟩ := exists_applied hrule none row
    obtain ⟨out, hmasked, hspans, hout, hchain, hfollowed⟩ :=
      ih hrules (happlied.proper hrule hproper) ((happlied.fits hrule).isChain hmeets)
    refine ⟨out, ?_, hspans.trans happlied.spans_eq, hout, hchain, fun P => ?_⟩
    · rw [hmasked, happlied.map_masked hrule]
      rfl
    · rw [hfollowed P]
      exact happlied.followed_iff hrule fun span s => P span (applyAll rules (some mask) s)

/-- The spans of a statement that is tidied up are those that it had exactly if a line break or
nothing is left behind each line comment. -/
theorem spans_clean_iff_behind (s : String) :
    spans (clean s).toList = spans s.toList ↔
      ∀ t ∈ followed (pieces s.toList), IsLineComment t.1 →
        ∀ c ∈ (applyAll rules (some mask) (t.2.map Piece.masked)).head?, c = '\n' := by
  obtain ⟨out, hmasked, hspans, hproper, hmeets, hfollowed⟩ :=
    exists_applyAll trimming_of_mem_rules (pieces_proper s.toList) (pieces_meet s.toList)
  have hclean : (clean s).toList = out.flatMap Piece.chars := by
    rw [clean, String.toList_ofList, tidy_eq, maskAll, spans, ← hmasked, ← hspans,
      unmask_row hproper]
  have hspans' : spans s.toList = out.filterMap Piece.span? := hspans.symm
  rw [hclean, hspans', spans_chars_iff hproper hmeets, keepsLine_iff]
  exact hfollowed fun span s => IsLineComment span → ∀ c ∈ s.head?, c = '\n'

end TwoWaySql.Clause
