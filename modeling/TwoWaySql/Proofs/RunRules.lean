import TwoWaySql.Proofs.Runs

/-!
# Rules on runs

The rules that tidy up clauses, on the runs of a statement. A rule on runs passes over all runs from
the last one to the first one and looks at what stands behind a run (`RunRule.apply`), so what it
does follows by structural recursion. This file

1. states the four rules on runs (`Run.afterWhere`, `Run.whereAtEnd`, `Run.whereBeforeClause`,
   `Run.afterSet`) and what each one does where it applies (`Run.afterWhere_cases` and so on);
2. shows that no rule applies within the start of the next clause (`Run.apply_clause`);
3. concludes that the runs that are left are as long as they can be (`Maximal.tidied`).
-/

namespace TwoWaySql.Clause

/-! ## Rules on runs -/

/-- A rule on runs: whether it applies to a run with others behind it, and what it makes of the run
when it has passed over the others. -/
structure RunRule where
  applies : Run → List Run → Bool
  change : Run → List Run → List Run

/-- Applies a rule to all runs. -/
def RunRule.apply (rule : RunRule) : List Run → List Run
  | [] => []
  | r :: rest =>
    if rule.applies r rest then rule.change r (rule.apply rest) else r :: rule.apply rest

namespace Run

/-- Whether a run is blanks. -/
def isBlanks (r : Run) : Bool := r.kind? == some .blanks

/-- Whether a run is a conjunction. -/
def isConjunction (r : Run) : Bool := r.name == "AND" || r.name == "OR"

/-- The blanks at the start of runs. -/
def takeBlanks : List Run → List Run
  | blanks b :: _ => [blanks b]
  | _ => []

/-- Runs without the blanks that they start with. -/
def dropBlanks : List Run → List Run
  | blanks _ :: rest => rest
  | rs => rs

/-- Whether a conjunction between blanks comes first. -/
def startsConjunction : List Run → Bool
  | blanks _ :: r :: blanks _ :: _ => r.isConjunction
  | _ => false

/-- Runs without the conjunction between the blanks that they start with. -/
def dropConjunction : List Run → List Run
  | b :: _ :: _ :: rest => b :: rest
  | rs => rs

/-- Whether a `WHERE` comes first and what follows it is as described. -/
def startsWhere (follows : List Run → Bool) : List Run → Bool
  | r :: rest => r.name == "WHERE" && follows rest
  | [] => false

/-- Whether what a clause stands in ends here. -/
def isEnd : List Run → Bool
  | [] => true
  | piece p :: _ => p == .live ')' || p == .live ';'
  | _ => false

/-- Whether what a clause stands in ends here, or behind blanks. -/
def endsClause (rs : List Run) : Bool := isEnd (dropBlanks rs)

/-- A keyword at the start of runs, and what follows it. -/
def word? (keyword : String) : List Run → Option (List Run × List Run)
  | r :: rest => if r.name = keyword then some ([r], rest) else none
  | [] => none

/-- Two keywords with blanks between them, and what follows them. -/
def words? (first second : String) : List Run → Option (List Run × List Run)
  | r :: blanks b :: s :: rest =>
    if r.name = first ∧ s.name = second then some ([r, blanks b, s], rest) else none
  | _ => none

/-- The runs that start the next clause, and what follows them. -/
def clause? (rs : List Run) : Option (List Run × List Run) :=
  words? "ORDER" "BY" rs <|> words? "GROUP" "BY" rs <|> word? "HAVING" rs <|> word? "LIMIT" rs <|>
    word? "UNION" rs <|> words? "FOR" "UPDATE" rs

/-- Whether the next clause starts behind blanks. -/
def startsClause : List Run → Bool
  | blanks _ :: rest => (clause? rest).isSome
  | _ => false

/-- Whether a comma behind blanks comes first. -/
def startsComma : List Run → Bool
  | blanks _ :: piece p :: _ => p == .live ','
  | _ => false

/-- Runs without the comma behind the blanks that they start with, and without the blanks behind
it. -/
def dropComma : List Run → List Run
  | b :: _ :: rest => b :: dropBlanks rest
  | rs => rs

/-- `WHERE AND x` becomes `WHERE x`. -/
def afterWhere : RunRule where
  applies r rest := r.name == "WHERE" && startsConjunction rest
  change r done := r :: dropConjunction done

/-- A `WHERE` at the end of a statement or of a part in parentheses goes away. -/
def whereAtEnd : RunRule where
  applies r rest := r.isBlanks && startsWhere endsClause rest
  change _ done := dropBlanks done.tail

/-- A `WHERE` in front of the next clause goes away. -/
def whereBeforeClause : RunRule where
  applies r rest := r.isBlanks && startsWhere startsClause rest
  change _ done := blanks [' '] :: dropBlanks done.tail

/-- `SET , x` becomes `SET x`. -/
def afterSet : RunRule where
  applies r rest := r.name == "SET" && startsComma rest
  change r done := r :: dropComma done

end Run

/-- The rules on runs in the order in which they are applied. -/
def Run.rules : List RunRule := [afterWhere, whereAtEnd, whereBeforeClause, afterSet]

/-- Applies all rules to runs. -/
def tidied (rs : List Run) : List Run := Run.rules.foldl (fun rs rule => rule.apply rs) rs

/-! ## What a rule passes over -/

namespace Run

theorem exists_word {r : Run} (h : r.name ≠ "") : ∃ w, r = word w := by
  rcases r with ⟨_ | _, w⟩ | p
  · exact ⟨w, rfl⟩
  · exact absurd rfl h
  · exact absurd rfl h

theorem exists_blanks {r : Run} (h : r.isBlanks = true) : ∃ b, r = blanks b := by
  rcases r with ⟨_ | _, b⟩ | p
  · cases h
  · exact ⟨b, rfl⟩
  · cases h

@[simp]
theorem takeBlanks_append_dropBlanks (rs : List Run) : takeBlanks rs ++ dropBlanks rs = rs := by
  rcases rs with _ | ⟨⟨_ | _, b⟩ | p, rest⟩ <;> rfl

end Run

namespace RunRule

variable {rule : RunRule} {r : Run} {rest : List Run}

theorem apply_cons (h : rule.applies r rest = true) :
    rule.apply (r :: rest) = rule.change r (rule.apply rest) := by
  rw [apply, if_pos h]

theorem apply_cons_of_not (h : rule.applies r rest = false) :
    rule.apply (r :: rest) = r :: rule.apply rest := by
  rw [apply, h, if_neg Bool.false_ne_true]

end RunRule

namespace Run

theorem afterWhere_pass {r : Run} (h : r.name ≠ "WHERE") (rest : List Run) :
    afterWhere.apply (r :: rest) = r :: afterWhere.apply rest :=
  RunRule.apply_cons_of_not (by simp [afterWhere, h])

theorem whereAtEnd_pass {r : Run} (h : r.isBlanks = false) (rest : List Run) :
    whereAtEnd.apply (r :: rest) = r :: whereAtEnd.apply rest :=
  RunRule.apply_cons_of_not (by simp [whereAtEnd, h])

theorem whereAtEnd_blanks {b : List Char} {rest : List Run}
    (h : startsWhere endsClause rest = false) :
    whereAtEnd.apply (blanks b :: rest) = blanks b :: whereAtEnd.apply rest :=
  RunRule.apply_cons_of_not (by simp [whereAtEnd, h])

theorem whereBeforeClause_pass {r : Run} (h : r.isBlanks = false) (rest : List Run) :
    whereBeforeClause.apply (r :: rest) = r :: whereBeforeClause.apply rest :=
  RunRule.apply_cons_of_not (by simp [whereBeforeClause, h])

theorem whereBeforeClause_blanks {b : List Char} {rest : List Run}
    (h : startsWhere startsClause rest = false) :
    whereBeforeClause.apply (blanks b :: rest) = blanks b :: whereBeforeClause.apply rest :=
  RunRule.apply_cons_of_not (by simp [whereBeforeClause, h])

theorem afterSet_pass {r : Run} (h : r.name ≠ "SET") (rest : List Run) :
    afterSet.apply (r :: rest) = r :: afterSet.apply rest :=
  RunRule.apply_cons_of_not (by simp [afterSet, h])

theorem isBlanks_eq_false {r : Run} (h : r.name ≠ "") : r.isBlanks = false := by
  obtain ⟨w, rfl⟩ := exists_word h
  rfl

theorem startsWhere_of_name {r : Run} (h : r.name ≠ "WHERE") (follows : List Run → Bool)
    (rest : List Run) : startsWhere follows (r :: rest) = false := by
  simp [startsWhere, h]

theorem exists_of_startsWhere {follows : List Run → Bool} {rs : List Run}
    (h : startsWhere follows rs = true) :
    ∃ w rest, rs = word w :: rest ∧ (word w).name = "WHERE" ∧ follows rest = true := by
  cases rs with
  | nil => cases h
  | cons r rest =>
    obtain ⟨hname, hfollows⟩ := Bool.and_eq_true_iff.1 h
    have hname : r.name = "WHERE" := by simpa using hname
    obtain ⟨w, rfl⟩ := exists_word (r := r) (by simp [hname])
    exact ⟨w, rest, rfl, hname, hfollows⟩

/-- The words that start the next clause. -/
def clauseNames : List String :=
  ["ORDER", "GROUP", "HAVING", "LIMIT", "UNION", "FOR", "BY", "UPDATE"]

theorem word?_eq_some {keyword : String} {rs : List Run} {found : List Run × List Run}
    (h : word? keyword rs = some found) :
    ∃ r, rs = found.1 ++ found.2 ∧ found.1 = [r] ∧ r.name = keyword := by
  cases rs with
  | nil => cases h
  | cons r rest =>
    rw [word?] at h
    split at h
    · next hname =>
      cases h
      exact ⟨r, rfl, rfl, hname⟩
    · cases h

theorem words?_eq_some {first second : String} {rs : List Run} {found : List Run × List Run}
    (h : words? first second rs = some found) :
    ∃ r b s, rs = found.1 ++ found.2 ∧ found.1 = [r, blanks b, s] ∧ r.name = first ∧
      s.name = second := by
  unfold words? at h
  split at h
  · next r b s rest =>
    split at h
    · next hnames =>
      cases h
      exact ⟨r, b, s, rfl, rfl, hnames⟩
    · cases h
  · cases h

/-- The next clause starts with a word or with two, and with none that a rule looks for. -/
theorem clause?_eq_some {rs : List Run} {found : List Run × List Run}
    (h : clause? rs = some found) :
    rs = found.1 ++ found.2 ∧
      ((∃ r, found.1 = [r] ∧ r.name ∈ clauseNames) ∨
        ∃ r b s, found.1 = [r, blanks b, s] ∧ r.name ∈ clauseNames ∧ s.name ∈ clauseNames) := by
  have one {keyword : String} (hmem : keyword ∈ clauseNames) (h : word? keyword rs = some found) :
      rs = found.1 ++ found.2 ∧
        ((∃ r, found.1 = [r] ∧ r.name ∈ clauseNames) ∨
          ∃ r b s, found.1 = [r, blanks b, s] ∧ r.name ∈ clauseNames ∧ s.name ∈ clauseNames) := by
    obtain ⟨r, hrs, hfront, rfl⟩ := word?_eq_some h
    exact ⟨hrs, .inl ⟨r, hfront, hmem⟩⟩
  have two {first second : String} (hfirst : first ∈ clauseNames) (hsecond : second ∈ clauseNames)
      (h : words? first second rs = some found) :
      rs = found.1 ++ found.2 ∧
        ((∃ r, found.1 = [r] ∧ r.name ∈ clauseNames) ∨
          ∃ r b s, found.1 = [r, blanks b, s] ∧ r.name ∈ clauseNames ∧ s.name ∈ clauseNames) := by
    obtain ⟨r, b, s, hrs, hfront, rfl, rfl⟩ := words?_eq_some h
    exact ⟨hrs, .inr ⟨r, b, s, hfront, hfirst, hsecond⟩⟩
  simp only [clause?, Option.orElse_eq_orElse, Option.orElse_eq_or, Option.or_eq_some_iff] at h
  rcases h with h | ⟨-, h | ⟨-, h | ⟨-, h | ⟨-, h | ⟨-, h⟩⟩⟩⟩⟩
  · exact two (by decide) (by decide) h
  · exact two (by decide) (by decide) h
  · exact one (by decide) h
  · exact one (by decide) h
  · exact one (by decide) h
  · exact two (by decide) (by decide) h

theorem ne_of_mem_clauseNames {r : Run} (h : r.name ∈ clauseNames) {keyword : String}
    (hkeyword : keyword ∉ clauseNames := by decide) : r.name ≠ keyword :=
  fun heq => hkeyword (heq ▸ h)

/-- The next clause starts with no `WHERE`. -/
theorem startsWhere_of_clause? {rs : List Run} {found : List Run × List Run}
    (h : clause? rs = some found) (follows : List Run → Bool) : startsWhere follows rs = false := by
  obtain ⟨front, behind⟩ := found
  obtain ⟨rfl, ⟨r, rfl, hr⟩ | ⟨r, b, s, rfl, hr, -⟩⟩ := clause?_eq_some h
  · exact startsWhere_of_name (ne_of_mem_clauseNames hr) follows behind
  · exact startsWhere_of_name (ne_of_mem_clauseNames hr) follows _

/-- A rule that applies at no word that starts the next clause, nor at blanks in front of one,
passes over the start of the next clause. -/
theorem apply_clause {rule : RunRule} {rs front behind : List Run}
    (hword : ∀ r rest, r.name ∈ clauseNames → rule.applies r rest = false)
    (hblanks : ∀ b r rest, r.name ∈ clauseNames → rule.applies (blanks b) (r :: rest) = false)
    (h : clause? rs = some (front, behind)) : rule.apply rs = front ++ rule.apply behind := by
  obtain ⟨rfl, ⟨r, rfl, hr⟩ | ⟨r, b, s, rfl, hr, hs⟩⟩ := clause?_eq_some h
  · exact RunRule.apply_cons_of_not (hword r behind hr)
  · show rule.apply (r :: blanks b :: s :: behind) = _
    rw [RunRule.apply_cons_of_not (hword _ _ hr), RunRule.apply_cons_of_not (hblanks _ _ _ hs),
      RunRule.apply_cons_of_not (hword _ _ hs)]
    rfl

theorem whereBeforeClause_clause {rs front behind : List Run}
    (h : clause? rs = some (front, behind)) :
    whereBeforeClause.apply rs = front ++ whereBeforeClause.apply behind := by
  refine apply_clause (fun r rest hr => ?_) (fun b r rest hr => ?_) h
  · simp [whereBeforeClause, isBlanks_eq_false (ne_of_mem_clauseNames hr)]
  · simp [whereBeforeClause, startsWhere_of_name (ne_of_mem_clauseNames hr)]

/-! ## Where a rule applies -/

theorem afterWhere_cases {r : Run} {rest : List Run} (h : afterWhere.applies r rest = true) :
    ∃ w b c d behind, r = word w ∧ r.name = "WHERE" ∧ c.isConjunction = true ∧
      rest = blanks b :: c :: blanks d :: behind ∧
      afterWhere.apply rest = blanks b :: c :: blanks d :: afterWhere.apply behind := by
  obtain ⟨hname, hrest⟩ := Bool.and_eq_true_iff.1 h
  have hname : r.name = "WHERE" := by simpa using hname
  obtain ⟨w, rfl⟩ := exists_word (r := r) (by simp [hname])
  rcases rest with _ | ⟨⟨_ | _, b⟩ | p, _ | ⟨c, _ | ⟨⟨_ | _, d⟩ | q, behind⟩⟩⟩
  all_goals try cases hrest
  have hc : c.name ≠ "WHERE" := by
    intro hname
    simp [startsConjunction, isConjunction, hname] at hrest
  refine ⟨w, b, c, d, behind, rfl, hname, hrest, rfl, ?_⟩
  rw [afterWhere_pass (by simp), afterWhere_pass hc, afterWhere_pass (by simp)]

theorem whereAtEnd_cases {r : Run} {rest : List Run} (h : whereAtEnd.applies r rest = true) :
    ∃ b w behind, r = blanks b ∧ rest = word w :: behind ∧ (word w).name = "WHERE" ∧
      endsClause behind = true ∧
      whereAtEnd.apply rest = word w :: (takeBlanks behind ++ ((dropBlanks behind).take 1 ++
        whereAtEnd.apply ((dropBlanks behind).drop 1))) := by
  obtain ⟨hblanks, hwhere⟩ := Bool.and_eq_true_iff.1 h
  obtain ⟨b, rfl⟩ := exists_blanks hblanks
  obtain ⟨w, behind, rfl, hname, hends⟩ := exists_of_startsWhere hwhere
  refine ⟨b, w, behind, rfl, rfl, hname, hends, ?_⟩
  rw [whereAtEnd_pass rfl]
  congr 1
  rcases behind with _ | ⟨⟨_ | _, d⟩ | p, behind⟩
  · rfl
  · cases hends
  · rcases behind with _ | ⟨⟨kind, s⟩ | p, behind⟩
    · rfl
    · cases hends
    · rfl
  · rfl

/-- Behind a `WHERE` at an end nothing but blanks goes away. -/
theorem dropBlanks_end {behind : List Run} (h : endsClause behind = true) :
    dropBlanks (takeBlanks behind ++ ((dropBlanks behind).take 1 ++
      whereAtEnd.apply ((dropBlanks behind).drop 1))) =
        (dropBlanks behind).take 1 ++ whereAtEnd.apply ((dropBlanks behind).drop 1) := by
  rcases behind with _ | ⟨⟨_ | _, d⟩ | p, behind⟩
  · rfl
  · cases h
  · rfl
  · rfl

theorem whereBeforeClause_cases {r : Run} {rest : List Run}
    (h : whereBeforeClause.applies r rest = true) :
    ∃ b w d next front behind, r = blanks b ∧ rest = word w :: blanks d :: next ∧
      (word w).name = "WHERE" ∧ clause? next = some (front, behind) ∧
      whereBeforeClause.apply rest =
        word w :: blanks d :: (front ++ whereBeforeClause.apply behind) := by
  obtain ⟨hblanks, hwhere⟩ := Bool.and_eq_true_iff.1 h
  obtain ⟨b, rfl⟩ := exists_blanks hblanks
  obtain ⟨w, rest, rfl, hname, hstarts⟩ := exists_of_startsWhere hwhere
  rcases rest with _ | ⟨⟨_ | _, d⟩ | p, next⟩
  all_goals try cases hstarts
  obtain ⟨⟨front, behind⟩, hclause⟩ := Option.isSome_iff_exists.1 hstarts
  refine ⟨b, w, d, next, front, behind, rfl, rfl, hname, hclause, ?_⟩
  rw [whereBeforeClause_pass rfl, whereBeforeClause_blanks (startsWhere_of_clause? hclause _),
    whereBeforeClause_clause hclause]

theorem afterSet_cases {r : Run} {rest : List Run} (h : afterSet.applies r rest = true) :
    ∃ w b behind, r = word w ∧ r.name = "SET" ∧
      rest = blanks b :: piece (.live ',') :: behind ∧
      afterSet.apply rest = blanks b :: piece (.live ',') :: afterSet.apply behind := by
  obtain ⟨hname, hrest⟩ := Bool.and_eq_true_iff.1 h
  have hname : r.name = "SET" := by simpa using hname
  obtain ⟨w, rfl⟩ := exists_word (r := r) (by simp [hname])
  rcases rest with _ | ⟨⟨_ | _, b⟩ | p, _ | ⟨⟨kind, s⟩ | q, behind⟩⟩
  all_goals try cases hrest
  obtain rfl : q = .live ',' := by simpa [startsComma] using hrest
  refine ⟨w, b, behind, rfl, hname, rfl, ?_⟩
  rw [afterSet_pass (by simp), afterSet_pass (by simp)]

end Run

/-! ## Runs that are left -/

/-- Runs start with no other kind of characters than others. -/
def StartsLike (out rs : List Run) : Prop :=
  ∀ kind, out.head?.bind Run.kind? = some kind → rs.head?.bind Run.kind? = some kind

/-- What a rule makes of a run, where it applies, is as long as it can be, and fits where the run
stands. -/
def RunRule.KeepsMaximal (rule : RunRule) : Prop :=
  ∀ r rest, rule.applies r rest = true → Maximal (r :: rule.apply rest) →
    Maximal (rule.change r (rule.apply rest)) ∧
      StartsLike (rule.change r (rule.apply rest)) (r :: rest)

theorem RunRule.KeepsMaximal.apply {rule : RunRule} (h : rule.KeepsMaximal) {rs : List Run}
    (hrs : Maximal rs) : Maximal (rule.apply rs) ∧ StartsLike (rule.apply rs) rs := by
  induction rs with
  | nil => exact ⟨.nil, fun _ => id⟩
  | cons r rest ih =>
    obtain ⟨hmaximal, hstarts⟩ := ih hrs.tail
    have hcons : Maximal (r :: rule.apply rest) := by
      refine .cons hrs.head hmaximal fun s hs kind hkind heq => ?_
      have hhead : (rule.apply rest).head?.bind Run.kind? = some kind := by
        rw [Option.mem_def.1 hs, Option.bind_some, heq]
      obtain ⟨t, ht, heq⟩ := Option.bind_eq_some_iff.1 (hstarts kind hhead)
      exact hrs.apart_head t ht kind hkind heq
    cases happlies : rule.applies r rest with
    | false =>
      rw [RunRule.apply_cons_of_not happlies]
      exact ⟨hcons, fun _ => id⟩
    | true =>
      rw [RunRule.apply_cons happlies]
      exact h r rest happlies hcons

namespace Maximal

variable {r s : Run} {rs : List Run}

theorem replace (h : Maximal (r :: rs)) (hs : s.Proper) (hkind : s.kind? = r.kind?) :
    Maximal (s :: rs) :=
  .cons hs h.tail fun t ht kind hk => h.apart_head t ht kind (hkind ▸ hk)

theorem dropBlanks (h : Maximal rs) : Maximal (Run.dropBlanks rs) := by
  rw [← Run.takeBlanks_append_dropBlanks rs] at h
  exact h.of_append

theorem head?_dropBlanks (h : Maximal rs) :
    (Run.dropBlanks rs).head?.bind Run.kind? ≠ some .blanks := by
  rcases rs with _ | ⟨⟨_ | _, b⟩ | p, rest⟩
  · nofun
  · nofun
  · intro hhead
    obtain ⟨t, ht, hkind⟩ := Option.bind_eq_some_iff.1 hhead
    exact h.apart_head t ht _ rfl hkind
  · nofun

end Maximal

theorem Run.afterWhere_keepsMaximal : afterWhere.KeepsMaximal := by
  intro r rest happlies h
  obtain ⟨w, b, c, d, behind, rfl, -, -, rfl, happly⟩ := afterWhere_cases happlies
  rw [happly] at h ⊢
  have hblanks : Maximal (.blanks b :: afterWhere.apply behind) :=
    h.tail.tail.tail.replace h.tail.head rfl
  exact ⟨.cons h.head hblanks h.apart_head, fun _ => id⟩

theorem Run.whereAtEnd_keepsMaximal : whereAtEnd.KeepsMaximal := by
  intro r rest happlies h
  obtain ⟨b, w, behind, rfl, rfl, -, hends, happly⟩ := whereAtEnd_cases happlies
  rw [happly] at h ⊢
  show Maximal (dropBlanks _) ∧ StartsLike (dropBlanks _) _
  rw [List.tail_cons, dropBlanks_end hends]
  refine ⟨h.tail.tail.of_append, ?_⟩
  unfold endsClause at hends
  generalize dropBlanks behind = last at hends
  rcases last with _ | ⟨⟨kind, s⟩ | p, more⟩
  · nofun
  · cases hends
  · nofun

theorem Run.whereBeforeClause_keepsMaximal : whereBeforeClause.KeepsMaximal := by
  intro r rest happlies h
  obtain ⟨b, w, d, next, front, behind, rfl, rfl, -, -, happly⟩ := whereBeforeClause_cases happlies
  rw [happly] at h ⊢
  exact ⟨h.tail.tail.replace ⟨nofun, List.forall_mem_singleton.2 rfl⟩ rfl, fun _ => id⟩

theorem Run.afterSet_keepsMaximal : afterSet.KeepsMaximal := by
  intro r rest happlies h
  obtain ⟨w, b, behind, rfl, -, rfl, happly⟩ := afterSet_cases happlies
  rw [happly] at h ⊢
  have hbehind := h.tail.tail.tail
  have hblanks : Maximal (.blanks b :: dropBlanks (afterSet.apply behind)) := by
    refine .cons h.tail.head hbehind.dropBlanks fun s hs kind hkind heq => ?_
    cases hkind
    exact hbehind.head?_dropBlanks (by rw [Option.mem_def.1 hs]; exact heq)
  exact ⟨.cons h.head hblanks h.apart_head, fun _ => id⟩

theorem Run.keepsMaximal_of_mem_rules : ∀ rule ∈ Run.rules, rule.KeepsMaximal := by
  simp [Run.rules, afterWhere_keepsMaximal, whereAtEnd_keepsMaximal, whereBeforeClause_keepsMaximal,
    afterSet_keepsMaximal]

/-- Runs that are tidied up are as long as they can be. -/
theorem Maximal.tidied {rs : List Run} (h : Maximal rs) : Maximal (tidied rs) := by
  unfold Clause.tidied
  have hrules := Run.keepsMaximal_of_mem_rules
  generalize Run.rules = rules at hrules
  induction rules generalizing rs with
  | nil => exact h
  | cons rule rules ih =>
    obtain ⟨hrule, hrules⟩ := List.forall_mem_cons.1 hrules
    exact ih (hrule.apply h).1 hrules

end TwoWaySql.Clause
