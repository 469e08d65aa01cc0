import TwoWaySql.Proofs.Directives
import TwoWaySql.Proofs.Tidying

/-!
# Line comments that lose their line

A `WHERE` that is left without a condition goes away together with the blanks in front of it. If
these start with the line break that ends a comment, the comment goes on into what follows. This
file shows that nothing else happens to hidden spans (`spans_clean_iff`). It follows the text behind
a comment through the rules:

1. a rule leaves a reader alone if it finds the same before and after (`Rule.Carries`), and so it is
   with the keywords of the next clause;
2. a conjunction behind a `WHERE` goes away first (`afterWhere_where?`), so a `WHERE` may be without
   a condition (`startsEmptyWhere`) once it is gone;
3. such a `WHERE` goes away at an end (`whereAtEnd`) or in front of the next clause
   (`isSome_whereBeforeClause_whereAtEnd`), and the line break with it (`head?_applyAll_rules`).
-/

namespace TwoWaySql.Clause

open Text (isBlank)

/-! ## Letters and blanks -/

theorem inRanges_eq_false {ranges others : List (Nat × Nat)} {n : Nat}
    (h : (ranges.all fun r => others.all fun o => r.2 < o.1 || o.2 < r.1) = true)
    (hn : Text.inRanges ranges n = true) : Text.inRanges others n = false := by
  obtain ⟨r, hr, hin⟩ := List.any_eq_true.1 hn
  refine List.any_eq_false.2 fun o ho hout => ?_
  have hapart := List.all_eq_true.1 (List.all_eq_true.1 h r hr) o ho
  simp only [Bool.and_eq_true, decide_eq_true_eq, Bool.or_eq_true] at hin hout hapart
  omega

/-- No blank is a word character. -/
theorem isWord_of_isBlank {c : Char} (h : isBlank c = true) : Text.isWord c = false := by
  unfold Text.isWord
  split
  · cases hword : Text.isAsciiWord c with
    | false => rfl
    | true =>
      have hpart : Name.isPart c = true := Name.isPart_of_isInner hword
      cases (Name.isBlank_of_isPart hpart).symm.trans h
  · exact inRanges_eq_false (by decide +kernel) h

theorem startsWithWord_eq (s : List Char) :
    Text.startsWithWord s = s.head?.any Text.isWord := by
  cases s <;> rfl

theorem isLetter_eq {letter c : Char} (h : isLetter letter c = true) (hc : c.toUpper = c)
    (hs : c ≠ 'ſ') : letter = c := by
  simp only [isLetter, Bool.or_eq_true, beq_iff_eq, Bool.and_eq_true] at h
  rcases h with h | ⟨-, h⟩
  · exact h.symm.trans hc
  · exact absurd h hs

theorem isLetter_W {letter c : Char} (h : isLetter letter c = true) (hletter : letter ≠ 'W') :
    isLetter 'W' c = false := by
  cases hw : isLetter 'W' c with
  | false => rfl
  | true =>
    have hupper : c.toUpper = 'W' := by simpa [isLetter] using hw
    simp only [isLetter, Bool.or_eq_true, beq_iff_eq, Bool.and_eq_true] at h
    rcases h with h | ⟨-, rfl⟩
    · exact absurd (h.symm.trans hupper) hletter
    · exact absurd hupper (by decide)

/-- No letter of a keyword is blank. -/
theorem isBlank_of_isLetter {letter c : Char} (hupper : letter.isUpper = true)
    (h : isLetter letter c = true) : isBlank c = false := by
  cases hblank : isBlank c with
  | false => rfl
  | true =>
    simp only [isLetter, Bool.or_eq_true, beq_iff_eq, Bool.and_eq_true] at h
    rcases h with rfl | ⟨-, rfl⟩
    · have hpart : Name.isPart c = true := by
        unfold Char.toUpper at hupper
        split at hupper
        · next hlower =>
          have hlower : c.isLower = true :=
            Bool.and_eq_true_iff.2 ⟨decide_eq_true hlower.1, decide_eq_true hlower.2⟩
          have halpha : c.isAlpha = true := Bool.or_eq_true_iff.2 (.inr hlower)
          simp [Name.isPart, Name.isInner, Char.isAlphanum, halpha]
        · have halpha : c.isAlpha = true := Bool.or_eq_true_iff.2 (.inl hupper)
          simp [Name.isPart, Name.isInner, Char.isAlphanum, halpha]
      cases (Name.isBlank_of_isPart hpart).symm.trans hblank
    · exact absurd hblank (by decide)

/-! ## Readers that a rule leaves alone -/

/-- A reader finds the same at the start of a text before a rule and after it, and the rule goes on
with the rest. -/
def Rule.Carries (rule : Rule) (read : List Char → Option (List Char × List Char)) : Prop :=
  ∀ before s, ∃ before', read (applyFrom rule 0 before s) =
    (read s).map fun found => (found.1, applyFrom rule 0 before' found.2)

/-- Two readers one after the other. -/
def andThen (read next : List Char → Option (List Char × List Char)) (s : List Char) :
    Option (List Char × List Char) :=
  (read s).bind fun found => (next found.2).map fun more => (found.1 ++ more.1, more.2)

theorem where?_eq (s : List Char) : where? s = andThen blanks? (keyword? "WHERE".toList) s := by
  simp only [where?, andThen, Option.map_eq_bind]
  rfl

theorem keywords?_eq (first second : String) (s : List Char) :
    keywords? first second s =
      andThen (keyword? first.toList) (andThen blanks? (keyword? second.toList)) s := by
  simp only [keywords?, andThen, Option.map_eq_bind, Option.bind_eq_bind, Option.bind_assoc,
    List.append_assoc]
  rfl

/-- A rule does not apply in front of a character. -/
def Rule.Idle (rule : Rule) (c : Char) : Prop := ∀ before s, rule before (c :: s) = none

namespace Rule

variable {rule : Rule} {read next : List Char → Option (List Char × List Char)}

theorem Carries.andThen (hread : rule.Carries read) (hnext : rule.Carries next) :
    rule.Carries (andThen read next) := by
  intro before s
  obtain ⟨before', h⟩ := hread before s
  cases hs : read s with
  | none =>
    rw [hs] at h
    exact ⟨none, by simp [Clause.andThen, h, hs]⟩
  | some found =>
    rw [hs] at h
    obtain ⟨last, hrest⟩ := hnext before' found.2
    refine ⟨last, ?_⟩
    simp [Clause.andThen, h, hs, hrest, Function.comp_def]

theorem Carries.orElse (hread : rule.Carries read) (hnext : rule.Carries next) :
    rule.Carries fun s => read s <|> next s := by
  intro before s
  obtain ⟨before', h⟩ := hread before s
  cases hs : read s with
  | none =>
    rw [hs] at h
    obtain ⟨last, hlast⟩ := hnext before s
    exact ⟨last, by simp [h, hs, hlast]⟩
  | some found =>
    rw [hs] at h
    exact ⟨before', by simp [h, hs]⟩

theorem applyFrom_idle {front : List Char} (h : ∀ c ∈ front, rule.Idle c) (before : Option Char)
    (s : List Char) :
    applyFrom rule 0 before (front ++ s) =
      front ++ applyFrom rule 0 (front.getLast?.or before) s := by
  induction front generalizing before with
  | nil => rfl
  | cons c front ih =>
    obtain ⟨hc, hfront⟩ := List.forall_mem_cons.1 h
    rw [List.cons_append, applyFrom_none (hc before _), ih hfront, getLast?_cons_or,
      List.cons_append]

/-- A rule leaves keywords alone if it does not apply at their letters and makes none. -/
theorem carries_keyword? {keyword : List Char}
    (hidle : ∀ letter ∈ keyword, ∀ c, isLetter letter c = true → rule.Idle c)
    (hhead : ∀ letter ∈ keyword, ∀ before s, ∀ c ∈ (applyFrom rule 0 before s).head?,
      isLetter letter c = true → c ∈ s.head?) : rule.Carries (keyword? keyword) := by
  induction keyword with
  | nil => exact fun before s => ⟨before, rfl⟩
  | cons letter keyword ih =>
    obtain ⟨hletter, hidle⟩ := List.forall_mem_cons.1 hidle
    obtain ⟨hfirst, hhead⟩ := List.forall_mem_cons.1 hhead
    intro before s
    cases s with
    | nil => exact ⟨none, rfl⟩
    | cons c s =>
      by_cases hc : isLetter letter c = true
      · obtain ⟨before', hrest⟩ := ih hidle hhead (some c) s
        refine ⟨before', ?_⟩
        rw [applyFrom_none (hletter c hc before s), keyword?, keyword?, if_pos hc, if_pos hc, hrest,
          Option.map_map, Option.map_map]
        rfl
      · refine ⟨none, ?_⟩
        rw [keyword?, if_neg hc]
        cases hs : applyFrom rule 0 before (c :: s) with
        | nil => rfl
        | cons d rest =>
          rw [keyword?, if_neg]
          · rfl
          · intro hd
            have hmem := hfirst before (c :: s) d (by rw [hs]; rfl) hd
            exact hc (Option.some.inj hmem ▸ hd)

/-- A condition on the rest that a rule leaves alone. -/
theorem Carries.unless (hread : rule.Carries read) {p : List Char → Bool}
    (hp : ∀ before s, p (applyFrom rule 0 before s) = p s) :
    rule.Carries fun s => (read s).bind fun found => if p found.2 then none else some found := by
  intro before s
  obtain ⟨before', h⟩ := hread before s
  refine ⟨before', ?_⟩
  cases hs : read s with
  | none => simp [h, hs]
  | some found =>
    simp only [h, hs, Option.map_some, Option.bind_some, hp]
    split <;> rfl

/-- A rule leaves the next clause alone if it does so with its keywords, with those that stand
behind blanks, and with the start of a word. -/
theorem carries_nextClause?
    (hword : ∀ keyword ∈ ["ORDER", "GROUP", "HAVING", "LIMIT", "UNION", "FOR"],
      rule.Carries (keyword? keyword.toList))
    (hbehind : ∀ keyword ∈ ["BY", "UPDATE"],
      rule.Carries (Clause.andThen blanks? (keyword? keyword.toList)))
    (hstart : ∀ before s, Text.startsWithWord (applyFrom rule 0 before s) = Text.startsWithWord s) :
    rule.Carries nextClause? := by
  have hwords {first second : String} (h : rule.Carries (keyword? first.toList))
      (hs : rule.Carries (Clause.andThen blanks? (keyword? second.toList))) :
      rule.Carries (keywords? first second) := by
    rw [show keywords? first second = _ from funext (keywords?_eq first second)]
    exact h.andThen hs
  have horder := hwords (hword "ORDER" (by simp)) (hbehind "BY" (by simp))
  have hgroup := hwords (hword "GROUP" (by simp)) (hbehind "BY" (by simp))
  have hupdate := hwords (hword "FOR" (by simp)) (hbehind "UPDATE" (by simp))
  have hall := horder.orElse <| hgroup.orElse <| (hword "HAVING" (by simp)).orElse <|
    (hword "LIMIT" (by simp)).orElse <| (hword "UNION" (by simp)).orElse hupdate
  exact hall.unless hstart

end Rule

/-! ## `WHERE` in front of a conjunction -/

theorem afterWhere_idle {c : Char} (h : isLetter 'W' c = false) : Rule.Idle afterWhere c := by
  intro before s
  have hnone : keyword? "WHERE".toList (c :: s) = none := by
    show keyword? ('W' :: "HERE".toList) (c :: s) = none
    rw [keyword?, h]
    rfl
  rw [afterWhere_eq, hnone]
  split <;> rfl

theorem afterWhere_idle_of_isBlank {c : Char} (h : isBlank c = true) :
    Rule.Idle afterWhere c := by
  apply afterWhere_idle
  cases hw : isLetter 'W' c with
  | false => rfl
  | true => cases (isBlank_of_isLetter (by decide) hw).symm.trans h

/-- A rule that keeps the word it starts with keeps the first character of a text. -/
theorem Rule.Trimming.head?_applyFrom {rule : Rule} (hrule : rule.Trimming)
    (hkept : ∀ {before s m}, rule before s = some m → m.kept.head? = s.head?)
    (before : Option Char) (s : List Char) : (applyFrom rule 0 before s).head? = s.head? := by
  cases hm : rule before s with
  | none => exact head?_applyFrom_none hm
  | some m => exact (head?_applyFrom_some hrule hm).trans (hkept hm)

theorem head?_afterWhere (before : Option Char) (s : List Char) :
    (applyFrom afterWhere 0 before s).head? = s.head? := by
  refine afterWhere_trimming.head?_applyFrom (fun hm => ?_) before s
  obtain ⟨clause, blanks, dropped, rest, rfl, rfl, hspells, -⟩ := afterWhere_eq_some hm
  cases hspells
  rfl

theorem head?_afterSet (before : Option Char) (s : List Char) :
    (applyFrom afterSet 0 before s).head? = s.head? := by
  refine afterSet_trimming.head?_applyFrom (fun hm => ?_) before s
  obtain ⟨clause, blanks, rest, rfl, rfl, hspells, -⟩ := afterSet_eq_some hm
  cases hspells
  rfl

theorem afterWhere_carries_keyword? {keyword : List Char} (h : 'W' ∉ keyword) :
    Rule.Carries afterWhere (keyword? keyword) := by
  apply Rule.carries_keyword?
  · intro letter hletter c hc
    exact afterWhere_idle (isLetter_W hc fun heq => h (heq ▸ hletter))
  · intro letter _ before s c hc _
    rwa [head?_afterWhere] at hc

/-- Blanks stay, and what stands behind them is looked at from a blank. -/
theorem afterWhere_blanks {blanks s : List Char} (h : ∀ c ∈ blanks, isBlank c = true)
    (before : Option Char) :
    applyFrom afterWhere 0 before (blanks ++ s) =
      blanks ++ applyFrom afterWhere 0 (blanks.getLast?.or before) s :=
  Rule.applyFrom_idle (fun c hc => afterWhere_idle_of_isBlank (h c hc)) before s

theorem afterWhere_carries_blanks? : Rule.Carries afterWhere blanks? := by
  intro before s
  cases hs : blanks? s with
  | none =>
    refine ⟨none, ?_⟩
    rw [blanks?_eq_none_iff] at hs
    rw [Option.map_none, blanks?_eq_none_iff, head?_afterWhere]
    exact hs
  | some found =>
    obtain ⟨blanks, rest⟩ := found
    obtain ⟨rfl, hblanks, hrest⟩ := blanks?_eq_some hs
    refine ⟨blanks.getLast?.or before, ?_⟩
    rw [afterWhere_blanks hblanks.2]
    apply blanks?_append hblanks
    rwa [head?_afterWhere]

theorem afterWhere_carries_nextClause? : Rule.Carries afterWhere nextClause? := by
  apply Rule.carries_nextClause?
  · intro keyword hkeyword
    apply afterWhere_carries_keyword?
    revert keyword
    decide
  · intro keyword hkeyword
    apply afterWhere_carries_blanks?.andThen
    apply afterWhere_carries_keyword?
    revert keyword
    decide
  · intro before s
    rw [startsWithWord_eq, startsWithWord_eq, head?_afterWhere]

/-! ## Clauses without conditions -/

/-- What follows a `WHERE`, without a conjunction that comes first. -/
def withoutConjunction (s : List Char) : List Char :=
  match conjunction? s with
  | some (blanks, _, rest) => blanks ++ rest
  | none => s

theorem withoutConjunction_of_none {s : List Char} (h : conjunction? s = none) :
    withoutConjunction s = s := by
  unfold withoutConjunction
  rw [h]

theorem withoutConjunction_of_some {s blanks dropped rest : List Char}
    (h : conjunction? s = some (blanks, dropped, rest)) :
    withoutConjunction s = blanks ++ rest := by
  unfold withoutConjunction
  rw [h]

/-- Whether what follows a `WHERE` leaves it without a condition while the statement goes on: what
the clause stands in ends, or the next clause starts. -/
def isEmptyClause (s : List Char) : Bool :=
  (s.dropWhile isBlank).head?.any (fun c => c == ')' || c == ';') ||
    (andThen blanks? nextClause? s).isSome

/-- Whether a text starts with blanks and a `WHERE` that is left without a condition. -/
def startsEmptyWhere (s : List Char) : Bool :=
  (where? s).any fun found => isEmptyClause (withoutConjunction found.2)

theorem afterWhere_dropWhile (before : Option Char) (s : List Char) :
    ∃ before', (applyFrom afterWhere 0 before s).dropWhile isBlank =
      applyFrom afterWhere 0 before' (s.dropWhile isBlank) := by
  refine ⟨(s.takeWhile isBlank).getLast?.or before, ?_⟩
  have hblank : ∀ c ∈ s.takeWhile isBlank, isBlank c = true := fun c hc => List.mem_takeWhile_imp hc
  have hrest := dropWhile_head? s
  rw [← head?_afterWhere ((s.takeWhile isBlank).getLast?.or before)] at hrest
  conv_lhs => rw [← List.takeWhile_append_dropWhile (p := isBlank) (l := s)]
  rw [afterWhere_blanks hblank, List.dropWhile_append_of_pos hblank, dropWhile_of_head? hrest]

theorem isEmptyClause_afterWhere (before : Option Char) (s : List Char) :
    isEmptyClause (applyFrom afterWhere 0 before s) = isEmptyClause s := by
  obtain ⟨last, hdrop⟩ := afterWhere_dropWhile before s
  obtain ⟨before', hnext⟩ :=
    (afterWhere_carries_blanks?.andThen afterWhere_carries_nextClause?) before s
  rw [isEmptyClause, isEmptyClause, hdrop, head?_afterWhere, hnext, Option.isSome_map]

/-- Where the rule looks from matters as far as it is a word character. -/
theorem afterWhere_congr {before before' : Option Char}
    (h : before.any Text.isWord = before'.any Text.isWord) (s : List Char) :
    applyFrom afterWhere 0 before s = applyFrom afterWhere 0 before' s := by
  cases s with
  | nil => rfl
  | cons c s => rw [applyFrom, applyFrom, afterWhere_eq, afterWhere_eq, h]

theorem IsBlanks.getLast?_isWord {blanks : List Char} (h : IsBlanks blanks) (before : Option Char) :
    (blanks.getLast?.or before).any Text.isWord = false := by
  obtain ⟨front, blank, rfl, hblank⟩ := h.exists_last
  simp [isWord_of_isBlank hblank]

theorem Spells.afterWhere_idle {keyword taken : List Char} (h : Spells keyword taken)
    (hw : 'W' ∉ keyword) : ∀ c ∈ taken, Rule.Idle afterWhere c := by
  induction h with
  | nil => nofun
  | cons hletter h ih =>
    rw [List.mem_cons, not_or] at hw
    have hidle := Clause.afterWhere_idle (isLetter_W hletter (Ne.symm hw.1))
    exact List.forall_mem_cons.2 ⟨hidle, ih hw.2⟩

/-- The rule makes no `WHERE`. -/
theorem afterWhere_keyword?_none {s : List Char} (h : keyword? "WHERE".toList s = none)
    (before : Option Char) : keyword? "WHERE".toList (applyFrom afterWhere 0 before s) = none := by
  cases s with
  | nil => rfl
  | cons c s =>
    have hnone : afterWhere before (c :: s) = none := by
      rw [afterWhere_eq, h]
      exact ite_self none
    rw [applyFrom_none hnone]
    -- a `W` stays, and the letters behind it are left alone
    have hcarries : Rule.Carries afterWhere (keyword? "HERE".toList) :=
      afterWhere_carries_keyword? (by decide)
    obtain ⟨before', hrest⟩ := hcarries (some c) s
    change keyword? ('W' :: "HERE".toList) (c :: s) = none at h
    show keyword? ('W' :: "HERE".toList) (c :: _) = none
    rw [keyword?] at h ⊢
    split at h
    · next hw =>
      rw [if_pos hw, hrest, Option.map_eq_none_iff.1 h]
      rfl
    · next hw => rw [if_neg hw]

/-- A `WHERE` stays, and what follows it is looked at from its last letter. -/
theorem applyFrom_afterWhere_none {clause rest : List Char} (hclause : Spells "WHERE".toList clause)
    (hrest : conjunction? rest = none) (before : Option Char) :
    applyFrom afterWhere 0 before (clause ++ rest) =
      clause ++ applyFrom afterWhere 0 clause.getLast? rest := by
  have hnone : afterWhere before (clause ++ rest) = none := by
    rw [afterWhere_eq, keyword?_append hclause, Option.bind_some]
    simp [hrest]
  obtain ⟨w, more, rfl, hmore⟩ : ∃ w more, clause = w :: more ∧ Spells "HERE".toList more := by
    cases hclause
    exact ⟨_, _, rfl, ‹_›⟩
  have hidle := hmore.afterWhere_idle (by decide)
  rw [List.cons_append] at hnone ⊢
  rw [applyFrom_none hnone, Rule.applyFrom_idle hidle, ← getLast?_cons_or w more none,
    Option.or_none]
  rfl

/-- The conjunction behind a `WHERE` goes away. -/
theorem applyFrom_afterWhere_some {before : Option Char} (h : before.any Text.isWord = false)
    {clause rest blanks dropped behind : List Char} (hclause : Spells "WHERE".toList clause)
    (hrest : conjunction? rest = some (blanks, dropped, behind)) :
    applyFrom afterWhere 0 before (clause ++ rest) =
      clause ++ applyFrom afterWhere 0 none (blanks ++ behind) := by
  have hmatch : afterWhere before (clause ++ rest) =
      some ⟨clause ++ blanks ++ dropped, clause ++ blanks⟩ := by
    rw [afterWhere_eq, h, if_neg Bool.false_ne_true, keyword?_append hclause, Option.bind_some]
    simp [hrest]
  obtain ⟨rfl, hblanks, conjunction, last, rfl, -, hlast⟩ := conjunction?_eq_some hrest
  have hfrom : (clause ++ blanks ++ (conjunction ++ last)).getLast?.any Text.isWord =
      (blanks.getLast?.or none).any Text.isWord := by
    obtain ⟨front, blank, rfl, hblank⟩ := hlast.exists_last
    rw [hblanks.getLast?_isWord]
    simp [isWord_of_isBlank hblank]
  rw [← List.append_assoc, ← List.append_assoc] at hmatch ⊢
  have hstep : applyFrom afterWhere 0 before
      (clause ++ blanks ++ (conjunction ++ last) ++ behind) =
        clause ++ blanks ++ applyFrom afterWhere 0
          (clause ++ blanks ++ (conjunction ++ last)).getLast? behind :=
    applyFrom_some (m := ⟨_, clause ++ blanks⟩) hmatch (by simp [hblanks.1])
  rw [hstep, afterWhere_congr hfrom, afterWhere_blanks hblanks.2, List.append_assoc]

/-- A `WHERE` at the start of a text is still there, and a conjunction behind it is gone. -/
theorem afterWhere_keyword? {before : Option Char} (h : before.any Text.isWord = false)
    (s : List Char) :
    ∃ before', keyword? "WHERE".toList (applyFrom afterWhere 0 before s) =
      (keyword? "WHERE".toList s).map fun found =>
        (found.1, applyFrom afterWhere 0 before' (withoutConjunction found.2)) := by
  cases hs : keyword? "WHERE".toList s with
  | none => exact ⟨none, afterWhere_keyword?_none hs before⟩
  | some found =>
    obtain ⟨clause, rest⟩ := found
    obtain ⟨rfl, hclause⟩ := keyword?_eq_some hs
    cases hrest : conjunction? rest with
    | none =>
      refine ⟨clause.getLast?, ?_⟩
      rw [applyFrom_afterWhere_none hclause hrest, keyword?_append hclause, Option.map_some,
        withoutConjunction_of_none hrest]
    | some parts =>
      obtain ⟨blanks, dropped, behind⟩ := parts
      refine ⟨none, ?_⟩
      rw [applyFrom_afterWhere_some h hclause hrest, keyword?_append hclause, Option.map_some,
        withoutConjunction_of_some hrest]

/-- A `WHERE` behind blanks is still there, and a conjunction behind it is gone. -/
theorem afterWhere_where? (before : Option Char) (s : List Char) :
    ∃ before', where? (applyFrom afterWhere 0 before s) =
      (where? s).map fun found =>
        (found.1, applyFrom afterWhere 0 before' (withoutConjunction found.2)) := by
  rw [where?_eq, where?_eq, andThen, andThen]
  cases hs : blanks? s with
  | none =>
    obtain ⟨last, hblanks⟩ := afterWhere_carries_blanks? before s
    exact ⟨none, by rw [hblanks, hs]; rfl⟩
  | some found =>
    obtain ⟨blanks, rest⟩ := found
    obtain ⟨rfl, hblanks, hrest⟩ := blanks?_eq_some hs
    obtain ⟨before', hkeyword⟩ := afterWhere_keyword? (hblanks.getLast?_isWord before) rest
    refine ⟨before', ?_⟩
    rw [← head?_afterWhere (blanks.getLast?.or before)] at hrest
    rw [afterWhere_blanks hblanks.2, blanks?_append hblanks hrest, Option.bind_some,
      Option.bind_some, hkeyword, Option.map_map, Option.map_map]
    rfl

theorem startsEmptyWhere_afterWhere (before : Option Char) (s : List Char) :
    startsEmptyWhere s =
      (where? (applyFrom afterWhere 0 before s)).any fun found => isEmptyClause found.2 := by
  obtain ⟨before', hwhere⟩ := afterWhere_where? before s
  rw [hwhere, startsEmptyWhere]
  cases where? s with
  | none => rfl
  | some found => exact (isEmptyClause_afterWhere before' (withoutConjunction found.2)).symm

/-! ## `WHERE` at an end -/

theorem where?_eq_none {s : List Char} (h : ∀ c ∈ s.head?, isBlank c = false) :
    where? s = none := by
  rw [where?_eq, andThen, blanks?_eq_none_iff.2 h]
  rfl

theorem whereAtEnd_idle {c : Char} (h : isBlank c = false) : Rule.Idle whereAtEnd c := by
  intro before s
  rw [whereAtEnd_eq, where?_eq_none]
  · rfl
  · intro d hd
    obtain rfl : c = d := Option.some.inj hd
    exact h

theorem whereAtEnd_none_of_head? {s : List Char} (h : ∀ c ∈ s.head?, isBlank c = false)
    (before : Option Char) : whereAtEnd before s = none := by
  cases s with
  | nil => rfl
  | cons c s => exact whereAtEnd_idle (h c rfl) before s

theorem whereAtEnd_kept {before : Option Char} {s : List Char} {m : Match}
    (h : whereAtEnd before s = some m) : ∀ c ∈ m.kept.head?, c = ')' ∨ c = ';' := by
  intro d hd
  obtain ⟨taken, t, -, ⟨-, rfl⟩ | ⟨c, rest, -, hc, rfl⟩⟩ := whereAtEnd_eq_some h
  · cases hd
  · obtain rfl : c = d := Option.some.inj hd
    exact hc

/-- The first character of a text stays, or a closing one takes its place. -/
theorem head?_whereAtEnd {before : Option Char} {s : List Char} {c : Char}
    (h : c ∈ (applyFrom whereAtEnd 0 before s).head?) : c ∈ s.head? ∨ c = ')' ∨ c = ';' := by
  cases hm : whereAtEnd before s with
  | none =>
    rw [head?_applyFrom_none hm] at h
    exact .inl h
  | some m =>
    rw [head?_applyFrom_some whereAtEnd_trimming hm] at h
    exact .inr (whereAtEnd_kept hm c h)

theorem whereAtEnd_carries_keyword? {keyword : List Char} (h : keyword.all Char.isUpper = true) :
    Rule.Carries whereAtEnd (keyword? keyword) := by
  rw [List.all_eq_true] at h
  apply Rule.carries_keyword?
  · intro letter hletter c hc
    exact whereAtEnd_idle (isBlank_of_isLetter (h letter hletter) hc)
  · intro letter hletter before s c hc hl
    rcases head?_whereAtEnd hc with hc | hc
    · exact hc
    · exfalso
      have hupper := h letter hletter
      rcases hc with rfl | rfl
      · obtain rfl := isLetter_eq hl (by decide) (by decide)
        cases hupper
      · obtain rfl := isLetter_eq hl (by decide) (by decide)
        cases hupper

theorem where?_cons {c d : Char} (hc : isBlank c = true) (hd : isBlank d = true) (s : List Char) :
    where? (c :: d :: s) = (where? (d :: s)).map fun found => (c :: found.1, found.2) := by
  have hblanks : blanks? (c :: d :: s) =
      (blanks? (d :: s)).map fun found => (c :: found.1, found.2) := by
    simp [blanks?, hc, hd]
  rw [where?_eq, where?_eq, andThen, andThen, hblanks, Option.bind_map, Option.map_bind]
  congr 1
  funext found
  simp [Function.comp_def]

/-- Within blanks the rule does not apply if it does not apply at the first one. -/
theorem whereAtEnd_cons {c d : Char} (hc : isBlank c = true) (hd : isBlank d = true)
    {s : List Char} {before : Option Char} (h : whereAtEnd before (c :: d :: s) = none)
    (before' : Option Char) : whereAtEnd before' (d :: s) = none := by
  rw [whereAtEnd_eq] at h ⊢
  rw [where?_cons hc hd] at h
  cases hw : where? (d :: s) with
  | none => rfl
  | some found =>
    rw [hw] at h
    simp only [Option.map_some, Option.bind_some] at h ⊢
    split at h
    · cases h
    · split at h
      · cases h
      · next hopen => rw [if_neg hopen]

/-- A rule that applies within blanks only where it applies at the first one passes over blanks at
which it does not apply. -/
theorem Rule.applyFrom_blanks {rule : Rule}
    (hcons : ∀ {c d : Char}, isBlank c = true → isBlank d = true → ∀ {s before},
      rule before (c :: d :: s) = none → ∀ before', rule before' (d :: s) = none)
    {blanks s : List Char} (hblanks : ∀ c ∈ blanks, isBlank c = true) {before : Option Char}
    (h : rule before (blanks ++ s) = none) :
    applyFrom rule 0 before (blanks ++ s) =
      blanks ++ applyFrom rule 0 (blanks.getLast?.or before) s := by
  induction blanks generalizing before with
  | nil => rfl
  | cons c blanks ih =>
    obtain ⟨hc, hblanks⟩ := List.forall_mem_cons.1 hblanks
    have hnone : rule before (c :: (blanks ++ s)) = none := h
    rw [getLast?_cons_or, List.cons_append, List.cons_append, applyFrom_none hnone]
    congr 1
    cases blanks with
    | nil => rfl
    | cons d blanks => exact ih hblanks (hcons hc (hblanks d List.mem_cons_self) h _)

theorem whereAtEnd_blanks {blanks s : List Char} (hblanks : ∀ c ∈ blanks, isBlank c = true)
    {before : Option Char} (h : whereAtEnd before (blanks ++ s) = none) :
    applyFrom whereAtEnd 0 before (blanks ++ s) =
      blanks ++ applyFrom whereAtEnd 0 (blanks.getLast?.or before) s :=
  Rule.applyFrom_blanks whereAtEnd_cons hblanks h

theorem whereAtEnd_andThen {read : List Char → Option (List Char × List Char)}
    (hread : Rule.Carries whereAtEnd read) {before : Option Char} {s : List Char}
    (h : whereAtEnd before s = none) :
    ∃ before', andThen blanks? read (applyFrom whereAtEnd 0 before s) =
      (andThen blanks? read s).map fun found =>
        (found.1, applyFrom whereAtEnd 0 before' found.2) := by
  rw [andThen, andThen]
  cases hs : blanks? s with
  | none =>
    rw [blanks?_eq_none_iff, ← head?_applyFrom_none h, ← blanks?_eq_none_iff] at hs
    exact ⟨none, by rw [hs]; rfl⟩
  | some found =>
    obtain ⟨blanks, rest⟩ := found
    obtain ⟨rfl, hblanks, hrest⟩ := blanks?_eq_some hs
    obtain ⟨before', hcarried⟩ := hread (blanks.getLast?.or before) rest
    refine ⟨before', ?_⟩
    have hstop := whereAtEnd_none_of_head? hrest (blanks.getLast?.or before)
    rw [← head?_applyFrom_none hstop] at hrest
    rw [whereAtEnd_blanks hblanks.2 h, blanks?_append hblanks hrest, Option.bind_some,
      Option.bind_some, hcarried, Option.map_map, Option.map_map]
    rfl

/-- Behind blanks the rule leaves alone what starts with no `WHERE`. -/
theorem whereAtEnd_carries_andThen {read : List Char → Option (List Char × List Char)}
    (hread : Rule.Carries whereAtEnd read)
    (hwhere : ∀ s, (keyword? "WHERE".toList s).isSome → read s = none) :
    Rule.Carries whereAtEnd (andThen blanks? read) := by
  intro before s
  cases hm : whereAtEnd before s with
  | none => exact whereAtEnd_andThen hread hm
  | some m =>
    have hafter : blanks? (applyFrom whereAtEnd 0 before s) = none := by
      rw [blanks?_eq_none_iff, head?_applyFrom_some whereAtEnd_trimming hm]
      intro c hc
      rcases whereAtEnd_kept hm c hc with rfl | rfl <;> decide
    have hbefore : andThen blanks? read s = none := by
      obtain ⟨taken, t, ht, -⟩ := whereAtEnd_eq_some hm
      rw [where?_eq] at ht
      obtain ⟨found, hblanks, ht⟩ := Option.bind_eq_some_iff.1 ht
      obtain ⟨clause, hclause, -⟩ := Option.map_eq_some_iff.1 ht
      rw [andThen, hblanks, Option.bind_some, hwhere found.2 (by rw [hclause]; rfl)]
      rfl
    refine ⟨none, ?_⟩
    rw [hbefore, andThen, hafter]
    rfl

theorem keyword?_of_where {letter : Char} (hletter : letter ≠ 'W') (keyword : List Char)
    {s : List Char} (h : (keyword? "WHERE".toList s).isSome) :
    keyword? (letter :: keyword) s = none := by
  cases s with
  | nil => rfl
  | cons c s =>
    change (keyword? ('W' :: "HERE".toList) (c :: s)).isSome at h
    rw [keyword?] at h ⊢
    split at h
    · next hw =>
      rw [if_neg fun hl => ?_]
      cases (isLetter_W hl hletter).symm.trans hw
    · cases h

theorem nextClause?_of_where {s : List Char} (h : (keyword? "WHERE".toList s).isSome) :
    nextClause? s = none := by
  have horder : keyword? "ORDER".toList s = none := keyword?_of_where (by decide) _ h
  have hgroup : keyword? "GROUP".toList s = none := keyword?_of_where (by decide) _ h
  have hhaving : keyword? "HAVING".toList s = none := keyword?_of_where (by decide) _ h
  have hlimit : keyword? "LIMIT".toList s = none := keyword?_of_where (by decide) _ h
  have hunion : keyword? "UNION".toList s = none := keyword?_of_where (by decide) _ h
  have hupdate : keyword? "FOR".toList s = none := keyword?_of_where (by decide) _ h
  rw [nextClause?, keywords?, keywords?, keywords?, horder, hgroup, hhaving, hlimit, hunion,
    hupdate]
  rfl

theorem startsWithWord_whereAtEnd (before : Option Char) (s : List Char) :
    Text.startsWithWord (applyFrom whereAtEnd 0 before s) = Text.startsWithWord s := by
  rw [startsWithWord_eq, startsWithWord_eq]
  cases hm : whereAtEnd before s with
  | none => rw [head?_applyFrom_none hm]
  | some m =>
    -- neither the blank in front nor what takes its place is a word character
    have hbefore : s.head?.any Text.isWord = false := by
      obtain ⟨taken, t, hwhere, -⟩ := whereAtEnd_eq_some hm
      obtain ⟨rfl, blanks, clause, rfl, hblanks, -⟩ := where?_eq_some hwhere
      obtain ⟨c, rest, rfl⟩ := List.exists_cons_of_ne_nil hblanks.1
      exact isWord_of_isBlank (hblanks.2 c List.mem_cons_self)
    rw [hbefore, head?_applyFrom_some whereAtEnd_trimming hm]
    cases hk : m.kept.head? with
    | none => rfl
    | some c => rcases whereAtEnd_kept hm c hk with rfl | rfl <;> decide

theorem whereAtEnd_carries_nextClause? : Rule.Carries whereAtEnd nextClause? := by
  apply Rule.carries_nextClause?
  · intro keyword hkeyword
    apply whereAtEnd_carries_keyword?
    revert keyword
    decide
  · intro keyword hkeyword
    simp only [List.mem_cons, List.not_mem_nil, or_false] at hkeyword
    rcases hkeyword with rfl | rfl
    · exact whereAtEnd_carries_andThen (whereAtEnd_carries_keyword? (by decide))
        fun s hs => keyword?_of_where (by decide) _ hs
    · exact whereAtEnd_carries_andThen (whereAtEnd_carries_keyword? (by decide))
        fun s hs => keyword?_of_where (by decide) _ hs
  · exact startsWithWord_whereAtEnd

/-! ## What is left behind a line break -/

theorem isSome_whereBeforeClause (before : Option Char) (s : List Char) :
    (whereBeforeClause before s).isSome =
      (where? s).any fun found => (andThen blanks? nextClause? found.2).isSome := by
  rw [whereBeforeClause_eq]
  cases where? s with
  | none => rfl
  | some found =>
    simp only [Option.bind_some, Option.any_some, andThen]
    cases blanks? found.2 with
    | none => rfl
    | some more => simp

/-- A `WHERE` goes away in front of the next clause exactly if it has no condition, where it does
not go away at an end. -/
theorem isSome_whereBeforeClause_whereAtEnd {before : Option Char} {s : List Char}
    (h : whereAtEnd before s = none) (before' : Option Char) :
    (whereBeforeClause before' (applyFrom whereAtEnd 0 before s)).isSome =
      (where? s).any fun found => isEmptyClause found.2 := by
  have hkeyword : Rule.Carries whereAtEnd (keyword? "WHERE".toList) :=
    whereAtEnd_carries_keyword? (by decide)
  obtain ⟨last, hwhere⟩ := whereAtEnd_andThen hkeyword h
  rw [← where?_eq, ← where?_eq] at hwhere
  rw [isSome_whereBeforeClause, hwhere]
  cases hs : where? s with
  | none => rfl
  | some found =>
    obtain ⟨c, rest, hrest, hparen, hsemicolon⟩ := whereAtEnd_eq_none h hs
    obtain ⟨end', hnext⟩ :=
      whereAtEnd_carries_andThen whereAtEnd_carries_nextClause? (fun _ => nextClause?_of_where)
        last found.2
    simp [isEmptyClause, hnext, hrest, hparen, hsemicolon]

theorem whereBeforeClause_kept {before : Option Char} {s : List Char} {m : Match}
    (h : whereBeforeClause before s = some m) : ∃ next, m.kept = ' ' :: next := by
  rw [whereBeforeClause_eq] at h
  obtain ⟨found, -, h⟩ := Option.bind_eq_some_iff.1 h
  obtain ⟨more, -, h⟩ := Option.bind_eq_some_iff.1 h
  obtain ⟨next, -, rfl⟩ := Option.map_eq_some_iff.1 h
  exact ⟨next.1, rfl⟩

theorem isEmptyClause_of_dropWhile {s : List Char} (h : s.dropWhile isBlank = []) :
    isEmptyClause s = false := by
  have hnext : andThen blanks? nextClause? s = none := by
    cases hs : blanks? s with
    | none => rw [andThen, hs]; rfl
    | some found =>
      obtain ⟨rfl, hblanks, hrest⟩ := blanks?_eq_some hs
      rw [List.dropWhile_append_of_pos hblanks.2, dropWhile_of_head? hrest] at h
      rw [andThen, hs, Option.bind_some, h]
      rfl
  simp [isEmptyClause, h, hnext]

/-- A line break at the start of a text is still there when all rules have passed, unless it stands
in front of a `WHERE` without a condition. -/
theorem head?_applyAll_rules {s : List Char} (h : ∀ c ∈ s.head?, c = '\n') :
    (∀ c ∈ (applyAll rules (some mask) s).head?, c = '\n') ↔ startsEmptyWhere s = false := by
  show (∀ c ∈ (applyFrom afterSet 0 (some mask) (applyFrom whereBeforeClause 0 (some mask)
    (applyFrom whereAtEnd 0 (some mask) (applyFrom afterWhere 0 (some mask) s)))).head?,
      c = '\n') ↔ _
  rw [head?_afterSet, startsEmptyWhere_afterWhere (some mask)]
  have hfirst : ∀ c ∈ (applyFrom afterWhere 0 (some mask) s).head?, c = '\n' := by
    rwa [head?_afterWhere]
  generalize applyFrom afterWhere 0 (some mask) s = t at hfirst
  cases hm : whereAtEnd (some mask) t with
  | none =>
    rw [← isSome_whereBeforeClause_whereAtEnd hm (some mask)]
    cases hn : whereBeforeClause (some mask) (applyFrom whereAtEnd 0 (some mask) t) with
    | none =>
      rw [head?_applyFrom_none hn, head?_applyFrom_none hm]
      exact ⟨fun _ => rfl, fun _ => hfirst⟩
    | some m =>
      obtain ⟨next, hkept⟩ := whereBeforeClause_kept hn
      rw [head?_applyFrom_some whereBeforeClause_trimming hn, hkept]
      exact ⟨fun hnewline => absurd (hnewline ' ' rfl) (by decide), nofun⟩
  | some m =>
    have hhead := head?_applyFrom_some whereAtEnd_trimming hm
    obtain ⟨taken, u, hwhere, ⟨hend, rfl⟩ | ⟨c, rest, hrest, hc, rfl⟩⟩ := whereAtEnd_eq_some hm
    · -- the rest of the statement goes away, and nothing is left to end the line
      rw [List.head?_eq_none_iff.1 hhead, hwhere]
      exact ⟨fun _ => isEmptyClause_of_dropWhile hend, fun _ _ => nofun⟩
    · have hempty : isEmptyClause u = true := by
        rcases hc with rfl | rfl <;> simp [isEmptyClause, hrest]
      have hnone : whereBeforeClause (some mask) (applyFrom whereAtEnd 0 (some mask) t) = none := by
        rw [whereBeforeClause_eq, where?_eq_none]
        · rfl
        · intro d hd
          obtain rfl : c = d := Option.some.inj (hhead.symm.trans hd)
          rcases hc with rfl | rfl <;> decide
      rw [head?_applyFrom_none hnone, hhead, hwhere, Option.any_some, hempty]
      refine ⟨fun hnewline => ?_, nofun⟩
      obtain rfl := hnewline c rfl
      rcases hc with hc | hc <;> cases hc

/-- The hidden spans of a statement that is tidied up are those that it had, exactly if behind no
line comment there is a `WHERE` without a condition. -/
theorem spans_clean_iff (s : String) :
    spans (clean s).toList = spans s.toList ↔
      ∀ front body behind,
        pieces s.toList = front ++ .hidden ('-' :: '-' :: body) :: behind →
          startsEmptyWhere (behind.map Piece.masked) = false := by
  have hproper := pieces_proper s.toList
  have hkeeps := (keepsLine_iff _).1 (pieces_keepLines s.toList)
  rw [spans_clean_iff_behind]
  constructor
  · intro h front body behind hpieces
    have hmem := mem_followed.2 ⟨front, hpieces⟩
    have hcomment : (Piece.hidden ('-' :: '-' :: body)).Proper :=
      hproper _ (by rw [hpieces]; simp)
    have hline := hcomment.isLineComment
    exact (head?_applyAll_rules (hkeeps _ hmem hline)).1 (h _ hmem hline)
  · rintro h ⟨span, behind⟩ hmem hline
    obtain ⟨front, hpieces⟩ := mem_followed.1 hmem
    have hhead := hkeeps _ hmem hline
    obtain ⟨body, rfl, -⟩ := hline
    exact (head?_applyAll_rules hhead).2 (h front body behind hpieces)

/-- The comment takes in the parenthesis behind it. -/
theorem spans_clean_ne :
    ¬ ∀ s : String, spans (clean s).toList = spans s.toList := by
  intro h
  have hspans := h "SELECT (SELECT 1 -- c\n WHERE ) x"
  revert hspans
  decide +kernel

end TwoWaySql.Clause
