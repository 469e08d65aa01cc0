import TwoWaySql.Proofs.RunRules

/-!
# Rules on runs and on their text

A rule on runs does what the rule that it models does to their text. This file

1. says what that means at a single run (`RunRule.Models`) and concludes it for all runs
   (`RunRule.Models.applyFrom_text`): a rule passes over a whole run at which it does not apply, as
   it does not apply within a word and within blanks only where it does so at the first one
   (`Maximal.applyFrom_word`, `Maximal.applyFrom_blanks`);
2. shows for each rule that it reads whole words only (`conjunction?_eq`, `where?_bind`,
   `nextClause?_eq`), and that it is modelled by the rule on runs (`models_rules`);
3. concludes that a text is tidied up run by run (`tidy_text`).
-/

namespace TwoWaySql.Clause

open Text (isBlank isWord startsWithWord)

/-! ## Models -/

/-- A rule on runs does to a run what a rule does to its text. -/
structure RunRule.Models (rule : RunRule) (onText : Rule) : Prop where
  pass {before : Option Char} {r : Run} {rest : List Run} (h : Maximal (r :: rest))
    (hbefore : r.kind? = some .word → before.any isWord = false)
    (hnone : rule.applies r rest = false) :
    applyFrom onText 0 before (text (r :: rest)) =
      r.masked ++ applyFrom onText 0 r.masked.getLast? (text rest)
  take {before : Option Char} {r : Run} {rest : List Run} (h : Maximal (r :: rest))
    (hbefore : r.kind? = some .word → before.any isWord = false)
    (hsome : rule.applies r rest = true) :
    ∃ front behind kept : List Run, rest = front ++ behind ∧
      onText before (text (r :: rest)) = some ⟨text (r :: front), text kept⟩ ∧
      rule.change r (rule.apply rest) = kept ++ rule.apply behind

theorem Run.Proper.masked_ne_nil {r : Run} (h : r.Proper) : r.masked ≠ [] := by
  cases r with
  | group kind s => simpa using h.1
  | piece p => simp

theorem Maximal.getLast?_text {r : Run} {front behind : List Run}
    (h : Maximal (r :: front ++ behind)) (hbehind : behind.head?.bind Run.kind? = some .word) :
    (text (r :: front)).getLast?.any isWord = false := by
  induction front generalizing r with
  | nil =>
    obtain ⟨s, hs, hkind⟩ := Option.bind_eq_some_iff.1 hbehind
    have hapart := h.apart_head s hs
    cases r with
    | piece p =>
      have hp : Kind.of? p.masked = none := h.head
      have hword : isWord p.masked ≠ true := fun hword => by
        cases (Kind.of?_eq_word.2 hword).symm.trans hp
      simpa using hword
    | group kind s =>
      obtain ⟨hne, hs⟩ := h.head
      obtain ⟨c, hc⟩ := List.getLast?_isSome.2 hne |> Option.isSome_iff_exists.1
      have hkind' := hs c (List.mem_of_getLast? hc)
      have hword : isWord c ≠ true := fun hword => by
        have heq := (Kind.of?_eq_word.2 hword).symm.trans hkind'
        cases Option.some.inj heq
        exact hapart _ rfl hkind
      simpa [hc] using hword
  | cons s front ih =>
    have hne : text (s :: front) ≠ [] := by
      simp [h.tail.head.masked_ne_nil]
    rw [text_cons, List.getLast?_append_of_ne_nil _ hne]
    exact ih h.tail

/-- A rule on runs does to runs what the rule that it models does to their text. -/
theorem RunRule.Models.applyFrom_text {rule : RunRule} {onText : Rule} (h : rule.Models onText)
    {rs : List Run} (hrs : Maximal rs) {before : Option Char}
    (hbefore : rs.head?.bind Run.kind? = some .word → before.any isWord = false) :
    applyFrom onText 0 before (text rs) = text (rule.apply rs) := by
  -- a rule may take several runs at once
  induction hlength : rs.length using Nat.strongRecOn generalizing before rs with
  | ind n ih =>
    cases rs with
    | nil => rfl
    | cons r rest =>
      have hlast {front behind : List Run} (hrest : r :: rest = r :: front ++ behind) :
          behind.head?.bind Run.kind? = some .word →
            (text (r :: front)).getLast?.any isWord = false :=
        Maximal.getLast?_text (hrest ▸ hrs)
      rw [RunRule.apply]
      split
      · next happlies =>
        obtain ⟨front, behind, kept, rfl, hmatch, hchange⟩ := h.take hrs hbefore happlies
        have hne : text (r :: front) ≠ [] := by simp [hrs.head.masked_ne_nil]
        have hshorter : behind.length < n := by
          rw [← hlength, List.length_cons, List.length_append]
          omega
        have hrs : Maximal (r :: front ++ behind) := hrs
        have hbehind := ih behind.length hshorter hrs.of_append (hlast rfl) rfl
        rw [hchange, text_append, ← hbehind]
        have htext : text (r :: (front ++ behind)) = text (r :: front) ++ text behind :=
          text_append (r :: front) behind
        rw [htext] at hmatch ⊢
        exact applyFrom_some (m := ⟨text (r :: front), text kept⟩) hmatch hne
      · next happlies =>
        have hshorter : rest.length < n := by
          rw [← hlength, List.length_cons]
          omega
        have hfrom := @hlast [] rest rfl
        rw [text_cons, text_nil, List.append_nil] at hfrom
        rw [h.pass hrs hbefore (eq_false_of_ne_true happlies), text_cons,
          ih rest.length hshorter hrs.tail hfrom rfl]

/-! ## Passing over a run -/

theorem Maximal.chars_word {w : List Char} {rest : List Run} (h : Maximal (.word w :: rest)) :
    w ≠ [] ∧ ∀ c ∈ w, isWord c = true :=
  ⟨h.head.1, fun c hc => Kind.of?_eq_word.1 (h.head.2 c hc)⟩

theorem Maximal.chars_blanks {b : List Char} {rest : List Run} (h : Maximal (.blanks b :: rest)) :
    IsBlanks b :=
  ⟨h.head.1, fun c hc => Kind.of?_eq_blanks.1 (h.head.2 c hc)⟩

/-- A rule that applies to whole words passes over a run at which it does not apply. -/
theorem Maximal.applyFrom_word {rule : Rule}
    (hword : ∀ before s, before.any isWord = true → rule before s = none)
    (hidle : ∀ c, isWord c = false → rule.Idle c) {before : Option Char} {r : Run}
    {rest : List Run} (h : Maximal (r :: rest)) (hnone : rule before (text (r :: rest)) = none) :
    applyFrom rule 0 before (text (r :: rest)) =
      r.masked ++ applyFrom rule 0 r.masked.getLast? (text rest) := by
  have hother (hchars : ∀ c ∈ r.masked, isWord c = false) :
      applyFrom rule 0 before (text (r :: rest)) =
        r.masked ++ applyFrom rule 0 r.masked.getLast? (text rest) := by
    rw [text_cons, Rule.applyFrom_idle fun c hc => hidle c (hchars c hc),
      Option.or_of_isSome (List.getLast?_isSome.2 h.head.masked_ne_nil)]
  rcases r with ⟨_ | _, s⟩ | p
  · obtain ⟨c, s, rfl⟩ := List.exists_cons_of_ne_nil h.chars_word.1
    obtain ⟨hc, hs⟩ := List.forall_mem_cons.1 h.chars_word.2
    rw [text_cons, Run.masked_group, List.cons_append] at hnone ⊢
    rw [applyFrom_none hnone, List.cons_append]
    congr 1
    clear hnone hother h
    -- within the word, a word character is in front
    induction s generalizing c with
    | nil => rfl
    | cons d s ih =>
      obtain ⟨hd, hs⟩ := List.forall_mem_cons.1 hs
      have hnone : rule (some c) (d :: (s ++ text rest)) = none := hword _ _ hc
      rw [List.cons_append, applyFrom_none hnone, ih d hd hs]
      rfl
  · refine hother fun c hc => isWord_of_isBlank (h.chars_blanks.2 c ?_)
    simpa using hc
  · have hp : Kind.of? p.masked = none := h.head
    refine hother fun c hc => eq_false_of_ne_true fun hword => ?_
    obtain rfl : c = p.masked := by simpa using hc
    cases (Kind.of?_eq_word.2 hword).symm.trans hp

/-- A rule that applies to blanks passes over a run at which it does not apply. -/
theorem Maximal.applyFrom_blanks {rule : Rule} (hidle : ∀ c, isBlank c = false → rule.Idle c)
    (hcons : ∀ {c d : Char}, isBlank c = true → isBlank d = true → ∀ {s before},
      rule before (c :: d :: s) = none → ∀ before', rule before' (d :: s) = none)
    {before : Option Char} {r : Run} {rest : List Run} (h : Maximal (r :: rest))
    (hnone : r.isBlanks = true → rule before (text (r :: rest)) = none) :
    applyFrom rule 0 before (text (r :: rest)) =
      r.masked ++ applyFrom rule 0 r.masked.getLast? (text rest) := by
  have hlast : r.masked.getLast?.or before = r.masked.getLast? :=
    Option.or_of_isSome (List.getLast?_isSome.2 h.head.masked_ne_nil)
  rw [← hlast, text_cons]
  rcases r with ⟨_ | _, s⟩ | p
  · refine Rule.applyFrom_idle (fun c hc => hidle c ?_) before (text rest)
    refine eq_false_of_ne_true fun hblank => ?_
    have hc : isWord c = true := h.chars_word.2 c (by simpa using hc)
    cases (isWord_of_isBlank hblank).symm.trans hc
  · refine Rule.applyFrom_blanks hcons (fun c hc => h.chars_blanks.2 c ?_) (hnone rfl)
    simpa using hc
  · refine Rule.applyFrom_idle (fun c hc => hidle c ?_) before (text rest)
    have hp : Kind.of? p.masked = none := h.head
    refine eq_false_of_ne_true fun hblank => ?_
    obtain rfl : c = p.masked := by simpa using hc
    cases (Kind.of?_eq_blanks.2 hblank).symm.trans hp

/-! ## Keywords between blanks -/

/-- Two keywords that start with different letters do not start the same text. -/
theorem keyword?_eq_none {first : String} {s : List Char}
    (h : (keyword? first.toList s).isSome) (other : String)
    (hne : (first.toList.head?.any fun a => other.toList.head?.any fun b =>
      a.isUpper && b.isUpper && a != b) = true) : keyword? other.toList s = none := by
  obtain ⟨a, ha, hne⟩ := (Option.any_eq_true ..).1 hne
  obtain ⟨b, hb, hne⟩ := (Option.any_eq_true ..).1 hne
  obtain ⟨keyword, hfirst⟩ := List.head?_eq_some_iff.1 ha
  obtain ⟨others, hother⟩ := List.head?_eq_some_iff.1 hb
  simp only [Bool.and_eq_true, bne_iff_ne] at hne
  obtain ⟨⟨ha, hb⟩, hne⟩ := hne
  rw [hfirst] at h
  rw [hother]
  cases s with
  | nil => rfl
  | cons c s =>
    rw [keyword?] at h ⊢
    split at h
    · next hc =>
      rw [if_neg]
      intro hd
      exact hne (((isLetter_iff ha).1 hc).symm.trans ((isLetter_iff hb).1 hd))
    · cases h

/-- Where two readers never both find something, what they find may be filtered for each. -/
theorem filter_orElse {α : Type} {a b : Option α} {p : α → Bool} (h : a.isSome → b = none) :
    (a <|> b).filter p = (a.filter p <|> b.filter p) := by
  cases a with
  | none => simp
  | some x =>
    rw [h rfl]
    cases hx : p x <;> simp [Option.filter, hx]

/-- In front of a reader that refuses a word, only a whole conjunction counts. -/
theorem bind_conjunction {α : Type} (next : List Char × List Char → Option α)
    (h : ∀ taken s, startsWithWord s = true → next (taken, s) = none) (s : List Char) :
    (keyword? "AND".toList s <|> keyword? "OR".toList s).bind next =
      (word? "AND" s <|> word? "OR" s).bind next := by
  have hexclusive (hs : (keyword? "AND".toList s).isSome) : keyword? "OR".toList s = none :=
    keyword?_eq_none hs "OR" (by decide)
  have hfilter : (keyword? "AND".toList s <|> keyword? "OR".toList s).filter
      (fun found => !startsWithWord found.2) = (word? "AND" s <|> word? "OR" s) :=
    filter_orElse hexclusive
  rw [← hfilter]
  exact bind_filter_word h _

theorem blanks?_of_startsWithWord {s : List Char} (h : startsWithWord s = true) :
    blanks? s = none := by
  rw [blanks?_eq_none_iff]
  intro c hc
  rw [startsWithWord_eq, Option.mem_def.1 hc] at h
  refine eq_false_of_ne_true fun hblank => ?_
  cases (isWord_of_isBlank hblank).symm.trans h

theorem conjunction?_eq (s : List Char) :
    conjunction? s = (blanks? s).bind fun found =>
      (word? "AND" found.2 <|> word? "OR" found.2).bind fun word =>
        (blanks? word.2).map fun more => (found.1, word.1 ++ more.1, more.2) := by
  have hnext (b s : List Char) := bind_conjunction
    (fun word => (blanks? word.2).map fun more => (b, word.1 ++ more.1, more.2))
    (fun taken s hs => by rw [blanks?_of_startsWithWord hs]; rfl) s
  simp only [← hnext]
  simp only [conjunction?, Option.map_eq_bind]
  rfl

/-- Blanks, a conjunction and blanks behind it are found in front of runs that start so. -/
theorem Maximal.conjunction?_text {b : List Char} {r : Run} {rest : List Run}
    (h : Maximal (.blanks b :: r :: rest)) :
    conjunction? (b ++ (r.masked ++ text rest)) =
      if r.isConjunction then
        (blanks? (text rest)).map fun more => (b, r.masked ++ more.1, more.2)
      else none := by
  rw [conjunction?_eq, ← text_cons, h.blanks?_text, Option.bind_some, text_cons,
    h.tail.word?_text (by decide), h.tail.word?_text (by decide)]
  by_cases hand : r.name = "AND"
  · simp [Run.isConjunction, hand]
  · by_cases hor : r.name = "OR" <;> simp [Run.isConjunction, hand, hor]

theorem Maximal.conjunction?_text_eq_none {rs : List Run} (h : Maximal rs)
    (hrs : Run.startsConjunction rs = false) : conjunction? (text rs) = none := by
  have hblanks (hrs : rs.head?.bind Run.kind? ≠ some .blanks) : conjunction? (text rs) = none := by
    rw [conjunction?_eq, h.blanks?_text_eq_none hrs]
    rfl
  rcases rs with _ | ⟨⟨_ | _, b⟩ | p, rest⟩
  · rfl
  · exact hblanks nofun
  · cases rest with
    | nil => rw [conjunction?_eq, text_cons, Run.masked_group, h.blanks?_text]; rfl
    | cons r rest =>
      rw [text_cons, text_cons, Run.masked_group, h.conjunction?_text]
      split
      · next hr =>
        have hrest : rest.head?.bind Run.kind? ≠ some .blanks := by
          intro hkind
          rcases rest with _ | ⟨⟨_ | _, d⟩ | p, rest⟩
          · cases hkind
          · cases hkind
          · cases hr.symm.trans hrs
          · cases hkind
        rw [h.tail.tail.blanks?_text_eq_none hrest]
        rfl
      · rfl
  · exact hblanks nofun

/-! ## The rule for conjunctions -/

/-- A rule that starts with a keyword is idle at characters that are no word characters. -/
theorem idle_of_keyword {rule : Rule} (keyword : String)
    (hupper : keyword.toList.head?.any Char.isUpper = true)
    (h : ∀ before s, keyword? keyword.toList s = none → rule before s = none) (c : Char)
    (hc : isWord c = false) : rule.Idle c := by
  intro before s
  apply h
  obtain ⟨letter, hhead, hletter⟩ := (Option.any_eq_true ..).1 hupper
  obtain ⟨letters, hkeyword⟩ := List.head?_eq_some_iff.1 hhead
  rw [hkeyword, keyword?, if_neg]
  intro hfirst
  cases (isWord_of_isLetter hletter hfirst).symm.trans hc

theorem afterWhere_eq_word? (before : Option Char) (s : List Char) :
    afterWhere before s =
      if before.any isWord then none
      else (word? "WHERE" s).bind fun clause =>
        (conjunction? clause.2).map fun found =>
          ⟨clause.1 ++ found.1 ++ found.2.1, clause.1 ++ found.1⟩ := by
  have hnext := bind_keyword?
    (fun clause => (conjunction? clause.2).map fun found =>
      (⟨clause.1 ++ found.1 ++ found.2.1, clause.1 ++ found.1⟩ : Match))
    (fun taken s hs => by rw [conjunction?_eq, blanks?_of_startsWithWord hs]; rfl) "WHERE" s
  rw [afterWhere_eq, ← hnext]

theorem afterWhere_models : Run.afterWhere.Models afterWhere where
  pass {before r rest} h hbefore hnone := by
    refine h.applyFrom_word (fun before s hb => ?_) ?_ ?_
    · rw [afterWhere_eq, if_pos hb]
    · refine idle_of_keyword "WHERE" (by decide) fun before s hs => ?_
      rw [afterWhere_eq, hs]
      exact ite_self none
    · rw [afterWhere_eq_word?, text_cons, h.word?_text (by decide)]
      by_cases hname : r.name = "WHERE"
      · have hrest : Run.startsConjunction rest = false := by
          simpa [Run.afterWhere, hname] using hnone
        simp [hname, h.tail.conjunction?_text_eq_none hrest]
      · simp [hname]
  take {before r rest} h hbefore hsome := by
    obtain ⟨w, b, c, d, behind, rfl, hname, hc, rfl, happly⟩ := Run.afterWhere_cases hsome
    refine ⟨[.blanks b, c, .blanks d], behind, [.word w, .blanks b], rfl, ?_, ?_⟩
    · have hfound : conjunction? (b ++ (c.masked ++ (d ++ text behind))) =
          some (b, c.masked ++ d, text behind) := by
        have hfind := h.tail.conjunction?_text
        rw [if_pos hc, text_cons, Run.masked_group, h.tail.tail.tail.blanks?_text] at hfind
        exact hfind
      rw [afterWhere_eq_word?, hbefore rfl, text_cons, h.word?_text (by decide), if_pos hname]
      simp [hfound]
    · rw [happly]
      rfl

/-! ## The rules for a `WHERE` without a condition -/

theorem Maximal.dropWhile_text {rs : List Run} (h : Maximal rs) :
    (text rs).dropWhile isBlank = text (Run.dropBlanks rs) := by
  have hstop {rs : List Run} (h : Maximal rs) (hrs : rs.head?.bind Run.kind? ≠ some .blanks) :
      (text rs).dropWhile isBlank = text rs :=
    dropWhile_of_head? (blanks?_eq_none_iff.1 (h.blanks?_text_eq_none hrs))
  rcases rs with _ | ⟨⟨_ | _, b⟩ | p, rest⟩
  · rfl
  · exact hstop h (by nofun)
  · have hrest := (blanks?_eq_some h.blanks?_text).2.2
    rw [text_cons, Run.masked_group, List.dropWhile_append_of_pos h.chars_blanks.2,
      dropWhile_of_head? hrest]
    rfl
  · exact hstop h (by nofun)

theorem Maximal.takeWhile_text {rs : List Run} (h : Maximal rs) :
    (text rs).takeWhile isBlank = text (Run.takeBlanks rs) := by
  have hsplit : (text rs).takeWhile isBlank ++ (text rs).dropWhile isBlank = text rs :=
    List.takeWhile_append_dropWhile
  rw [h.dropWhile_text] at hsplit
  conv_rhs at hsplit => rw [← Run.takeBlanks_append_dropBlanks rs, text_append]
  exact List.append_cancel_right hsplit

theorem where?_bind {α : Type} {next : List Char × List Char → Option α}
    (h : ∀ taken s, startsWithWord s = true → next (taken, s) = none) (s : List Char) :
    (where? s).bind next = (blanks? s).bind fun found =>
      (word? "WHERE" found.2).bind fun clause => next (found.1 ++ clause.1, clause.2) := by
  have hnext (b s : List Char) := bind_keyword? (fun clause => next (b ++ clause.1, clause.2))
    (fun taken s hs => h (b ++ taken) s hs) "WHERE" s
  simp only [← hnext]
  simp [where?, Option.bind_assoc]

/-- What follows a `WHERE` behind blanks is read if the runs start so. -/
theorem Maximal.where?_text {α : Type} {next : List Char × List Char → Option α}
    (hnext : ∀ taken s, startsWithWord s = true → next (taken, s) = none) {b : List Char}
    {r : Run} {rest : List Run} (h : Maximal (.blanks b :: r :: rest)) :
    (where? (text (.blanks b :: r :: rest))).bind next =
      if r.name = "WHERE" then next (b ++ r.masked, text rest) else none := by
  rw [where?_bind hnext, text_cons, Run.masked_group, h.blanks?_text, Option.bind_some, text_cons,
    h.tail.word?_text (by decide)]
  split <;> rfl

/-- What `whereAtEnd` looks at behind the `WHERE`. -/
def closing? : List Char × List Char → Option Match
  | (taken, s) =>
    match s.dropWhile isBlank with
    | [] => some ⟨taken ++ s.takeWhile isBlank, []⟩
    | c :: _ =>
      if c = ')' || c = ';' then some ⟨taken ++ s.takeWhile isBlank ++ [c], [c]⟩ else none

/-- What `whereBeforeClause` looks at behind the `WHERE`. -/
def next? : List Char × List Char → Option Match
  | (taken, s) => (blanks? s).bind fun (between, s) =>
    (nextClause? s).map fun (next, _) => ⟨taken ++ between ++ next, ' ' :: next⟩

theorem closing?_of_startsWithWord (taken s : List Char) (h : startsWithWord s = true) :
    closing? (taken, s) = none := by
  cases s with
  | nil => cases h
  | cons c s =>
    have hblank : ∀ d ∈ (c :: s).head?, isBlank d = false :=
      blanks?_eq_none_iff.1 (blanks?_of_startsWithWord h)
    rw [closing?, dropWhile_of_head? hblank]
    refine if_neg fun hc => ?_
    have hword : isWord c = true := h
    rcases Bool.or_eq_true_iff.1 hc with hc | hc
    · obtain rfl := of_decide_eq_true hc
      revert hword
      decide
    · obtain rfl := of_decide_eq_true hc
      revert hword
      decide

theorem next?_of_startsWithWord (taken s : List Char) (h : startsWithWord s = true) :
    next? (taken, s) = none := by
  rw [next?, blanks?_of_startsWithWord h]
  rfl

theorem Run.isEnd_piece {p : Piece} {rest : List Run} :
    isEnd (piece p :: rest) = true ↔ p.masked = ')' ∨ p.masked = ';' := by
  cases p with
  | live c => simp [isEnd, Piece.masked]
  | hidden span =>
    have hmask : mask ≠ ')' ∧ mask ≠ ';' := by decide
    simp [isEnd, Piece.masked, hmask]

/-- Nothing is found behind a `WHERE` that is not at an end. -/
theorem Maximal.closing?_text_eq_none {taken : List Char} {rest : List Run} (h : Maximal rest)
    (hrest : Run.endsClause rest = false) : closing? (taken, text rest) = none := by
  rw [closing?, h.dropWhile_text]
  have hdrop := h.dropBlanks
  unfold Run.endsClause at hrest
  generalize Run.dropBlanks rest = behind at hdrop hrest
  rcases behind with _ | ⟨⟨kind, s⟩ | p, more⟩
  · cases hrest
  · obtain ⟨c, s, rfl⟩ := List.exists_cons_of_ne_nil hdrop.head.1
    have hc : Kind.of? c = some kind := hdrop.head.2 c List.mem_cons_self
    rw [text_cons, Run.masked_group, List.cons_append]
    refine if_neg fun hclose => ?_
    have hclose : c = ')' ∨ c = ';' := by simpa using hclose
    have hnone : Kind.of? c = none := by rcases hclose with rfl | rfl <;> decide
    cases hnone.symm.trans hc
  · rw [text_cons, Run.masked_piece, List.singleton_append]
    refine if_neg fun hclose => ?_
    have hclose : p.masked = ')' ∨ p.masked = ';' := by simpa using hclose
    cases (Run.isEnd_piece.2 hclose).symm.trans hrest

/-- A `WHERE` at an end is found with what ends it. -/
theorem Maximal.closing?_text {taken : List Char} {rest : List Run} (h : Maximal rest)
    (hrest : Run.endsClause rest = true) :
    closing? (taken, text rest) = some ⟨taken ++ text (Run.takeBlanks rest) ++
      text ((Run.dropBlanks rest).take 1), text ((Run.dropBlanks rest).take 1)⟩ := by
  rw [closing?, h.dropWhile_text, h.takeWhile_text]
  unfold Run.endsClause at hrest
  generalize Run.dropBlanks rest = behind at hrest
  rcases behind with _ | ⟨⟨kind, s⟩ | p, more⟩
  · simp
  · cases hrest
  · have hclose := Run.isEnd_piece.1 hrest
    simp [hclose]

theorem whereAtEnd_eq_end? (before : Option Char) (s : List Char) :
    whereAtEnd before s = (where? s).bind closing? := whereAtEnd_eq before s

theorem whereBeforeClause_eq_next? (before : Option Char) (s : List Char) :
    whereBeforeClause before s = (where? s).bind next? := whereBeforeClause_eq before s

theorem whereAtEnd_models : Run.whereAtEnd.Models whereAtEnd where
  pass {before r rest} h _ hnone := by
    refine h.applyFrom_blanks (fun _ => whereAtEnd_idle) whereAtEnd_cons fun hblanks => ?_
    obtain ⟨b, rfl⟩ := Run.exists_blanks hblanks
    rw [whereAtEnd_eq_end?]
    cases rest with
    | nil =>
      rw [where?_bind closing?_of_startsWithWord, text_cons, Run.masked_group, h.blanks?_text]
      rfl
    | cons r rest =>
      rw [h.where?_text closing?_of_startsWithWord]
      split
      · next hname =>
        have hrest : Run.endsClause rest = false := by
          simpa [Run.whereAtEnd, Run.startsWhere, hname, hblanks] using hnone
        exact h.tail.tail.closing?_text_eq_none hrest
      · rfl
  take {before r rest} h _ hsome := by
    obtain ⟨b, w, behind, rfl, rfl, hname, hends, happly⟩ := Run.whereAtEnd_cases hsome
    refine ⟨.word w :: Run.takeBlanks behind ++ (Run.dropBlanks behind).take 1,
      (Run.dropBlanks behind).drop 1, (Run.dropBlanks behind).take 1, ?_, ?_, ?_⟩
    · rw [List.append_assoc, List.take_append_drop, List.cons_append,
        Run.takeBlanks_append_dropBlanks]
    · rw [whereAtEnd_eq_end?, h.where?_text closing?_of_startsWithWord, if_pos hname,
        h.tail.tail.closing?_text hends]
      simp [text_append]
    · rw [happly]
      exact Run.dropBlanks_end hends

/-! ## The rule for the next clause -/

/-- Two keywords with blanks between them, as whole words. -/
def words? (first second : String) (s : List Char) : Option (List Char × List Char) :=
  (word? first s).bind fun one => (blanks? one.2).bind fun between =>
    (word? second between.2).map fun two => (one.1 ++ between.1 ++ two.1, two.2)

theorem keywords?_eq_none {first second : String} {s : List Char}
    (h : keyword? first.toList s = none) : keywords? first second s = none := by
  rw [keywords?, h]
  rfl

theorem filter_keywords? (first second : String) (s : List Char) :
    (keywords? first second s).filter (fun found => !startsWithWord found.2) =
      words? first second s := by
  have hnext := bind_keyword?
    (fun one => (blanks? one.2).bind fun between =>
      (word? second between.2).map fun two => (one.1 ++ between.1 ++ two.1, two.2))
    (fun taken s hs => by rw [blanks?_of_startsWithWord hs]; rfl) first s
  rw [words?, ← hnext, keywords?]
  cases keyword? first.toList s with
  | none => rfl
  | some one =>
    show ((blanks? one.2).bind _).filter _ = (blanks? one.2).bind _
    cases blanks? one.2 with
    | none => rfl
    | some between =>
      show ((keyword? second.toList between.2).bind _).filter _ = (word? second between.2).map _
      unfold word?
      cases keyword? second.toList between.2 with
      | none => rfl
      | some two => cases hword : startsWithWord two.2 <;> simp [Option.filter, hword]

/-- The next clause starts with whole words. -/
theorem nextClause?_eq (s : List Char) :
    nextClause? s = (words? "ORDER" "BY" s <|> words? "GROUP" "BY" s <|> word? "HAVING" s <|>
      word? "LIMIT" s <|> word? "UNION" s <|> words? "FOR" "UPDATE" s) := by
  have hone {first second : String} (h : (keywords? first second s).isSome) :
      (keyword? first.toList s).isSome := by
    cases hs : keyword? first.toList s with
    | none => rw [keywords?_eq_none hs] at h; cases h
    | some one => rfl
  have hfilter : nextClause? s = (keywords? "ORDER" "BY" s <|> keywords? "GROUP" "BY" s <|>
      keyword? "HAVING".toList s <|> keyword? "LIMIT".toList s <|> keyword? "UNION".toList s <|>
      keywords? "FOR" "UPDATE" s).filter (fun found => !startsWithWord found.2) := by
    rw [nextClause?]
    generalize (keywords? "ORDER" "BY" s <|> _) = found
    cases found with
    | none => rfl
    | some found => cases hword : startsWithWord found.2 <;> simp [Option.filter, hword]
  rw [hfilter, filter_orElse, filter_orElse, filter_orElse, filter_orElse, filter_orElse,
    filter_keywords?, filter_keywords?, filter_keywords?]
  · rfl
  -- the keywords start with different letters
  all_goals intro h
  · rw [keywords?_eq_none (keyword?_eq_none h "FOR" (by decide))]
  · rw [keyword?_eq_none h "UNION" (by decide),
      keywords?_eq_none (keyword?_eq_none h "FOR" (by decide))]
    rfl
  · rw [keyword?_eq_none h "LIMIT" (by decide), keyword?_eq_none h "UNION" (by decide),
      keywords?_eq_none (keyword?_eq_none h "FOR" (by decide))]
    rfl
  · have h := hone h
    rw [keyword?_eq_none h "HAVING" (by decide), keyword?_eq_none h "LIMIT" (by decide),
      keyword?_eq_none h "UNION" (by decide),
      keywords?_eq_none (keyword?_eq_none h "FOR" (by decide))]
    rfl
  · have h := hone h
    rw [keywords?_eq_none (keyword?_eq_none h "GROUP" (by decide)),
      keyword?_eq_none h "HAVING" (by decide), keyword?_eq_none h "LIMIT" (by decide),
      keyword?_eq_none h "UNION" (by decide),
      keywords?_eq_none (keyword?_eq_none h "FOR" (by decide))]
    rfl

theorem Maximal.map_word? {keyword : String} (hkeyword : IsKeyword keyword) {rs : List Run}
    (h : Maximal rs) :
    word? keyword (text rs) =
      (Run.word? keyword rs).map fun found => (text found.1, text found.2) := by
  cases rs with
  | nil => exact word?_nil hkeyword
  | cons r rest =>
    rw [text_cons, h.word?_text hkeyword, Run.word?]
    split <;> simp

theorem Maximal.map_words? {first second : String} (hfirst : IsKeyword first)
    (hsecond : IsKeyword second) {rs : List Run} (h : Maximal rs) :
    words? first second (text rs) =
      (Run.words? first second rs).map fun found => (text found.1, text found.2) := by
  cases rs with
  | nil => rw [words?, text_nil, word?_nil hfirst]; rfl
  | cons r rest =>
    rw [words?, text_cons, h.word?_text hfirst]
    by_cases hr : r.name = first
    · rw [if_pos hr, Option.bind_some]
      have hblanks (hrest : rest.head?.bind Run.kind? ≠ some .blanks) :
          blanks? (text rest) = none := h.tail.blanks?_text_eq_none hrest
      rcases rest with _ | ⟨⟨_ | _, b⟩ | p, rest⟩
      · rfl
      · rw [hblanks (by simp [Run.kind?])]
        rfl
      · rw [text_cons, Run.masked_group, h.tail.blanks?_text, Option.bind_some,
          h.tail.tail.map_word? hsecond]
        cases rest with
        | nil => rfl
        | cons s rest => by_cases hs : s.name = second <;> simp [Run.words?, Run.word?, hr, hs]
      · rw [hblanks (by simp [Run.kind?])]
        rfl
    · rw [if_neg hr]
      rcases rest with _ | ⟨⟨_ | _, b⟩ | p, _ | ⟨s, rest⟩⟩ <;> simp [Run.words?, hr]

theorem Maximal.map_clause? {rs : List Run} (h : Maximal rs) :
    nextClause? (text rs) =
      (Run.clause? rs).map fun found => (text found.1, text found.2) := by
  rw [nextClause?_eq, h.map_words? (by decide) (by decide), h.map_words? (by decide) (by decide),
    h.map_words? (by decide) (by decide), h.map_word? (by decide), h.map_word? (by decide),
    h.map_word? (by decide)]
  simp only [Run.clause?, Option.orElse_eq_orElse, Option.orElse_eq_or, Option.map_or]

theorem whereBeforeClause_idle {c : Char} (h : isBlank c = false) :
    Rule.Idle whereBeforeClause c := by
  intro before s
  rw [whereBeforeClause_eq_next?, where?_eq_none]
  · rfl
  · intro d hd
    obtain rfl : c = d := Option.some.inj hd
    exact h

theorem whereBeforeClause_cons {c d : Char} (hc : isBlank c = true) (hd : isBlank d = true)
    {s : List Char} {before : Option Char} (h : whereBeforeClause before (c :: d :: s) = none)
    (before' : Option Char) : whereBeforeClause before' (d :: s) = none := by
  rw [← Option.not_isSome_iff_eq_none, isSome_whereBeforeClause] at h ⊢
  rw [where?_cons hc hd, Option.any_map] at h
  exact h

theorem Maximal.next?_text_eq_none {taken : List Char} {rest : List Run} (h : Maximal rest)
    (hrest : Run.startsClause rest = false) : next? (taken, text rest) = none := by
  have hblanks (hkind : rest.head?.bind Run.kind? ≠ some .blanks) :
      next? (taken, text rest) = none := by
    rw [next?, h.blanks?_text_eq_none hkind]
    rfl
  rcases rest with _ | ⟨⟨_ | _, d⟩ | p, rest⟩
  · exact hblanks nofun
  · exact hblanks nofun
  · rw [next?, text_cons, Run.masked_group, h.blanks?_text, Option.bind_some]
    show (nextClause? (text rest)).map _ = none
    rw [h.tail.map_clause?]
    have hclause : Run.clause? rest = none := Option.isNone_iff_eq_none.1 (by
      simpa [Run.startsClause] using hrest)
    rw [hclause]
    rfl
  · exact hblanks nofun

theorem whereBeforeClause_models : Run.whereBeforeClause.Models whereBeforeClause where
  pass {before r rest} h _ hnone := by
    refine h.applyFrom_blanks (fun _ => whereBeforeClause_idle) whereBeforeClause_cons ?_
    intro hblanks
    obtain ⟨b, rfl⟩ := Run.exists_blanks hblanks
    rw [whereBeforeClause_eq_next?]
    cases rest with
    | nil =>
      rw [where?_bind next?_of_startsWithWord, text_cons, Run.masked_group, h.blanks?_text]
      rfl
    | cons r rest =>
      rw [h.where?_text next?_of_startsWithWord]
      split
      · next hname =>
        have hrest : Run.startsClause rest = false := by
          simpa [Run.whereBeforeClause, Run.startsWhere, hname, hblanks] using hnone
        exact h.tail.tail.next?_text_eq_none hrest
      · rfl
  take {before r rest} h _ hsome := by
    obtain ⟨b, w, d, next, front, behind, rfl, rfl, hname, hclause, happly⟩ :=
      Run.whereBeforeClause_cases hsome
    refine ⟨.word w :: .blanks d :: front, behind, .blanks [' '] :: front, ?_, ?_, ?_⟩
    · rw [(Run.clause?_eq_some hclause).1]
      rfl
    · rw [whereBeforeClause_eq_next?, h.where?_text next?_of_startsWithWord, if_pos hname, next?,
        text_cons, Run.masked_group, h.tail.tail.blanks?_text, Option.bind_some]
      show (nextClause? (text next)).map _ = _
      rw [h.tail.tail.tail.map_clause?, hclause]
      simp
    · rw [happly]
      rfl

/-! ## The rule for commas -/

/-- What `afterSet` looks at behind the `SET`. -/
def comma? (s : List Char) : Option (List Char × List Char) :=
  (blanks? s).bind fun found =>
    match found.2 with
    | ',' :: s => some (found.1, ',' :: s.takeWhile isBlank)
    | _ => none

theorem afterSet_eq (before : Option Char) (s : List Char) :
    afterSet before s =
      if before.any isWord then none
      else (keyword? "SET".toList s).bind fun clause =>
        (comma? clause.2).map fun found =>
          ⟨clause.1 ++ found.1 ++ found.2, clause.1 ++ found.1⟩ := by
  unfold afterSet
  split
  · rfl
  · show (keyword? "SET".toList s).bind _ = (keyword? "SET".toList s).bind _
    congr 1
    funext clause
    rw [comma?]
    show (blanks? clause.2).bind _ = ((blanks? clause.2).bind _).map _
    rw [Option.map_bind]
    congr 1
    funext found
    show (match found.2 with | ',' :: s => _ | _ => _) = _
    rw [Function.comp_apply]
    split <;> rfl

theorem afterSet_eq_word? (before : Option Char) (s : List Char) :
    afterSet before s =
      if before.any isWord then none
      else (word? "SET" s).bind fun clause =>
        (comma? clause.2).map fun found =>
          ⟨clause.1 ++ found.1 ++ found.2, clause.1 ++ found.1⟩ := by
  have hnext := bind_keyword?
    (fun clause => (comma? clause.2).map fun found =>
      (⟨clause.1 ++ found.1 ++ found.2, clause.1 ++ found.1⟩ : Match))
    (fun taken s hs => by rw [comma?, blanks?_of_startsWithWord hs]; rfl) "SET" s
  rw [afterSet_eq, ← hnext]

/-- A character that is in no group of characters is a piece of its own. -/
theorem Maximal.eq_piece {rs : List Run} (h : Maximal rs) {c : Char}
    (hhead : (text rs).head? = some c) (hc : Kind.of? c = none ∧ c ≠ mask) :
    ∃ rest, rs = .piece (.live c) :: rest := by
  rcases rs with _ | ⟨⟨kind, s⟩ | p, rest⟩
  · cases hhead
  · have hkind := h.head?_text
    rw [hhead, Option.bind_some, hc.1] at hkind
    cases hkind
  · obtain rfl : p.masked = c := Option.some.inj hhead
    cases p with
    | live c => exact ⟨rest, rfl⟩
    | hidden span => exact absurd rfl hc.2

theorem Maximal.comma?_text_eq_none {rs : List Run} (h : Maximal rs)
    (hrs : Run.startsComma rs = false) : comma? (text rs) = none := by
  have hblanks (hrs : rs.head?.bind Run.kind? ≠ some .blanks) : comma? (text rs) = none := by
    rw [comma?, h.blanks?_text_eq_none hrs]
    rfl
  rcases rs with _ | ⟨⟨_ | _, b⟩ | p, rest⟩
  · rfl
  · exact hblanks nofun
  · rw [comma?, text_cons, Run.masked_group, h.blanks?_text, Option.bind_some]
    split
    · next s hs =>
      have hhead : (text rest).head? = some ',' := congrArg List.head? hs
      obtain ⟨more, rfl⟩ := h.tail.eq_piece hhead (by decide)
      cases hrs
    · rfl
  · exact hblanks nofun

theorem Run.dropBlanks_afterSet (rs : List Run) :
    dropBlanks (afterSet.apply rs) = afterSet.apply (dropBlanks rs) := by
  rcases rs with _ | ⟨⟨_ | _, s⟩ | p, rest⟩
  · rfl
  · have hrest : dropBlanks (word s :: rest) = word s :: rest := rfl
    rw [hrest, RunRule.apply]
    split <;> rfl
  · rw [afterSet_pass (by simp)]
    rfl
  · rfl

theorem afterSet_models : Run.afterSet.Models afterSet where
  pass {before r rest} h hbefore hnone := by
    refine h.applyFrom_word (fun before s hb => ?_) ?_ ?_
    · rw [afterSet_eq, if_pos hb]
    · refine idle_of_keyword "SET" (by decide) fun before s hs => ?_
      rw [afterSet_eq, hs]
      exact ite_self none
    · rw [afterSet_eq_word?, text_cons, h.word?_text (by decide)]
      by_cases hname : r.name = "SET"
      · have hrest : Run.startsComma rest = false := by
          simpa [Run.afterSet, hname] using hnone
        simp [hname, h.tail.comma?_text_eq_none hrest]
      · simp [hname]
  take {before r rest} h hbefore hsome := by
    obtain ⟨w, b, behind, rfl, hname, rfl, happly⟩ := Run.afterSet_cases hsome
    refine ⟨[.blanks b, .piece (.live ',')] ++ Run.takeBlanks behind, Run.dropBlanks behind,
      [.word w, .blanks b], ?_, ?_, ?_⟩
    · rw [List.append_assoc, Run.takeBlanks_append_dropBlanks]
      rfl
    · have hfound : comma? (b ++ ',' :: text behind) =
          some (b, ',' :: text (Run.takeBlanks behind)) := by
        have hfind : blanks? (b ++ ',' :: text behind) = some (b, ',' :: text behind) :=
          h.tail.blanks?_text
        rw [comma?, hfind, Option.bind_some]
        show some (b, ',' :: (text behind).takeWhile isBlank) = _
        rw [h.tail.tail.tail.takeWhile_text]
      rw [afterSet_eq_word?, hbefore rfl, text_cons, h.word?_text (by decide), if_pos hname]
      simp [Piece.masked, hfound]
    · rw [happly]
      show _ :: _ :: Run.dropBlanks (Run.afterSet.apply behind) = _
      rw [Run.dropBlanks_afterSet]
      rfl

/-! ## All rules -/

/-- Every rule on runs does what the rule in its place does to their text. -/
theorem models_rules : List.Forall₂ RunRule.Models Run.rules rules :=
  .cons afterWhere_models (.cons whereAtEnd_models (.cons whereBeforeClause_models
    (.cons afterSet_models .nil)))

/-- The text of runs is tidied up run by run. -/
theorem tidy_text {rs : List Run} (h : Maximal rs) : tidy (text rs) = text (tidied rs) := by
  unfold tidy tidied
  have hmodels := models_rules
  have hrules := Run.keepsMaximal_of_mem_rules
  generalize Run.rules = onRuns at hmodels hrules
  generalize rules = onText at hmodels
  induction hmodels generalizing rs with
  | nil => rfl
  | @cons rule onText rules texts hmodel hmodels ih =>
    obtain ⟨hrule, hrules⟩ := List.forall_mem_cons.1 hrules
    rw [List.foldl_cons, List.foldl_cons, applyRule, hmodel.applyFrom_text h fun _ => rfl]
    exact ih (hrule.apply h).1 hrules

end TwoWaySql.Clause
