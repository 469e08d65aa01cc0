import TwoWaySql.Proofs.Pruning

/-!
# Leftovers

What one pass over a statement does not take away. Each rule looks at each place once, so it misses
what another rule, or the rule itself one place further on, brings next to a keyword. A look at the
runs that a rule leaves is traced back to a look at the runs that the rule was given. This file

1. defines looks at the start of runs (`starts`, `blankWhere`, `conjunctionThen`, `setComma`) and
   what it is to trace one back through a rule (`RunRule.Reads`);
2. traces looks back through rules that change what is behind a keyword (`RunRule.Behind`) and
   through rules that take a `WHERE` away (`RunRule.Removes`);
3. concludes that a rule applies to runs that are tidied up exactly if a leftover was somewhere in
   the runs before (`leftover`, `Run.occurs_tidied`);
4. shows that runs stay as they are exactly if no rule applies (`tidied_eq_self_iff`).
-/

namespace TwoWaySql.Clause

namespace Run

/-! ## Looks -/

/-- Whether runs look somewhere as described. -/
def occurs (p : List Run → Bool) : List Run → Bool
  | [] => false
  | r :: rest => p (r :: rest) || occurs p rest

/-- Whether a run of some sort comes first and what follows it is as described. -/
def starts (first : Run → Bool) (follows : List Run → Bool) : List Run → Bool
  | r :: rest => first r && follows rest
  | [] => false

def isWhere (r : Run) : Bool := r.name == "WHERE"

def isSet (r : Run) : Bool := r.name == "SET"

def isComma (r : Run) : Bool := r == piece (.live ',')

/-- Whether a `WHERE` behind blanks comes first and what follows it is as described. -/
def blankWhere (follows : List Run → Bool) : List Run → Bool :=
  starts isBlanks (starts isWhere follows)

/-- Whether a conjunction between blanks comes first and what follows it is as described. -/
def conjunctionThen (follows : List Run → Bool) : List Run → Bool :=
  starts isBlanks (starts isConjunction (starts isBlanks follows))

/-- Whether a `SET` and a comma come first and what follows them is as described. -/
def setComma (follows : List Run → Bool) : List Run → Bool :=
  starts isSet (starts isBlanks (starts isComma follows))

/-- Whether a comma comes first or behind blanks. -/
def commaNext (rs : List Run) : Bool :=
  starts isComma (fun _ => true) rs || starts isBlanks (starts isComma fun _ => true) rs

/-- Whether a `WHERE` in front of the runs is without a condition. -/
def endsWhere (rs : List Run) : Bool := endsClause rs || startsClause rs

/-- Runs without the conjunction that they start with. -/
def without (rs : List Run) : List Run :=
  if startsConjunction rs then dropConjunction rs else rs

theorem starts_isWhere : starts isWhere = startsWhere := by
  funext follows rs
  cases rs <;> rfl

theorem starts_cons (first : Run → Bool) (follows : List Run → Bool) (r : Run)
    (rest : List Run) : starts first follows (r :: rest) = (first r && follows rest) := rfl

theorem starts_blanks (follows : List Run → Bool) (b : List Char) (rest : List Run) :
    starts isBlanks follows (blanks b :: rest) = follows rest := rfl

theorem starts_mono {first : Run → Bool} {q q' : List Run → Bool}
    (h : ∀ rs, q rs = true → q' rs = true) {rs : List Run} (hrs : starts first q rs = true) :
    starts first q' rs = true := by
  cases rs with
  | nil => cases hrs
  | cons r rest =>
    obtain ⟨hr, hrest⟩ := Bool.and_eq_true_iff.1 hrs
    rw [starts_cons, hr, h rest hrest]
    rfl

theorem starts_of_not {first : Run → Bool} {q : List Run → Bool} {rs : List Run}
    (h : starts first (fun _ => true) rs = false) : starts first q rs = false := by
  refine eq_false_of_ne_true fun hrs => ?_
  rw [starts_mono (fun _ _ => rfl) hrs] at h
  cases h

theorem dropBlanks_of_not {rs : List Run} (h : starts isBlanks (fun _ => true) rs = false) :
    dropBlanks rs = rs := by
  rcases rs with _ | ⟨⟨_ | _, b⟩ | p, rest⟩
  · rfl
  · rfl
  · cases h
  · rfl

theorem isBlanks_cons {r : Run} (h : r.isBlanks = false) (follows : List Run → Bool)
    (rest : List Run) : starts isBlanks follows (r :: rest) = false := by
  simp [starts, h]

theorem startsConjunction_eq : startsConjunction = conjunctionThen fun _ => true := by
  funext rs
  rcases rs with _ | ⟨⟨_ | _, b⟩ | p, _ | ⟨c, _ | ⟨⟨_ | _, d⟩ | q, behind⟩⟩⟩ <;>
    simp [startsConjunction, conjunctionThen, starts, isBlanks, kind?]

theorem startsComma_eq : startsComma = starts isBlanks (starts isComma fun _ => true) := by
  funext rs
  rcases rs with _ | ⟨⟨_ | _, b⟩ | p, _ | ⟨⟨kind, s⟩ | q, behind⟩⟩ <;>
    simp [startsComma, starts, isBlanks, isComma, kind?]

theorem startsClause_eq : startsClause = starts isBlanks fun rest => (clause? rest).isSome := by
  funext rs
  rcases rs with _ | ⟨⟨_ | _, b⟩ | p, rest⟩ <;> rfl

theorem isEnd_cons (r : Run) (rest : List Run) : isEnd (r :: rest) = isEnd [r] := by
  cases r <;> rfl

theorem endsClause_cons {r : Run} (h : r.isBlanks = false) (rest : List Run) :
    endsClause (r :: rest) = isEnd [r] := by
  rcases r with ⟨_ | _, s⟩ | p
  · rfl
  · cases h
  · rfl

theorem endsClause_eq (rs : List Run) :
    endsClause rs = (isEnd rs || starts isBlanks isEnd rs) := by
  rcases rs with _ | ⟨⟨_ | _, b⟩ | p, rest⟩
  · rfl
  · rfl
  · rfl
  · simp [endsClause, dropBlanks, starts, isBlanks, kind?]

theorem name_of_isConjunction {r : Run} (h : r.isConjunction = true) :
    r.name = "AND" ∨ r.name = "OR" := by
  simpa [isConjunction] using h

/-! ## The next clause -/

/-- The name of a word behind blanks. -/
def secondName : List Run → String
  | blanks _ :: r :: _ => r.name
  | _ => ""

theorem secondName_cons {r : Run} (h : r.isBlanks = false) (rest : List Run) :
    secondName (r :: rest) = "" := by
  rcases r with ⟨_ | _, s⟩ | p
  · rfl
  · cases h
  · rfl

/-- Whether the next clause starts with a word, or with two that have blanks between them. -/
def startsAs (first second : String) : Bool :=
  first == "ORDER" && second == "BY" || first == "GROUP" && second == "BY" || first == "HAVING" ||
    first == "LIMIT" || first == "UNION" || first == "FOR" && second == "UPDATE"

theorem isSome_clause?_cons (r : Run) (rest : List Run) :
    (clause? (r :: rest)).isSome = startsAs r.name (secondName rest) := by
  have hone (keyword : String) :
      (word? keyword (r :: rest)).isSome = (r.name == keyword) := by
    rw [word?]
    split <;> simp_all
  have htwo (first second : String) (hne : second ≠ "") :
      (words? first second (r :: rest)).isSome =
        (r.name == first && secondName rest == second) := by
    rcases rest with _ | ⟨⟨_ | _, b⟩ | p, _ | ⟨s, more⟩⟩
    all_goals try simp [words?, secondName, hne.symm]
    split <;> simp_all
  simp only [clause?, Option.orElse_eq_orElse, Option.orElse_eq_or, Option.isSome_or, hone,
    htwo "ORDER" "BY" (by decide), htwo "GROUP" "BY" (by decide),
    htwo "FOR" "UPDATE" (by decide), startsAs, Bool.or_assoc]

/-- Another second word changes nothing, unless it is one that may start a clause. -/
theorem startsAs_congr {second other : String} (h : second ∉ ["BY", "UPDATE"])
    (hother : other ∉ ["BY", "UPDATE"]) (first : String) :
    startsAs first second = startsAs first other := by
  simp only [List.mem_cons, List.not_mem_nil, or_false, not_or] at h hother
  simp only [startsAs, beq_eq_false_iff_ne.2 h.1, beq_eq_false_iff_ne.2 h.2,
    beq_eq_false_iff_ne.2 hother.1, beq_eq_false_iff_ne.2 hother.2]

end Run

open Run

/-! ## Looking at changed runs -/

/-- What a look at changed runs finds, as a look at the runs that they were made of. -/
def RunRule.Reads (rule : RunRule) (q q' : List Run → Bool) : Prop :=
  ∀ rs, Maximal rs → q (rule.apply rs) = q' rs

namespace RunRule.Reads

variable {rule : RunRule} {q q' s s' : List Run → Bool}

theorem const (b : Bool) : rule.Reads (fun _ => b) fun _ => b := fun _ _ => rfl

theorem or (h : rule.Reads q q') (h' : rule.Reads s s') :
    rule.Reads (fun rs => q rs || s rs) fun rs => q' rs || s' rs := by
  intro rs hrs
  simp only [h rs hrs, h' rs hrs]

theorem not (h : rule.Reads q q') : rule.Reads (fun rs => !q rs) fun rs => !q' rs := by
  intro rs hrs
  simp only [h rs hrs]

theorem and (h : rule.Reads q q') (h' : rule.Reads s s') :
    rule.Reads (fun rs => q rs && s rs) fun rs => q' rs && s' rs := by
  intro rs hrs
  simp only [h rs hrs, h' rs hrs]

theorem congr (h : rule.Reads q q') (heq : ∀ rs, Maximal rs → q' rs = s' rs) :
    rule.Reads q s' := by
  intro rs hrs
  rw [h rs hrs, heq rs hrs]

/-- What is found somewhere in changed runs, if a change brings forth nothing behind its first
run. -/
theorem occurs (h : rule.Reads q q')
    (hchange : ∀ r rest, Maximal (r :: rest) → rule.applies r rest = true →
      Run.occurs q (rule.change r (rule.apply rest)) =
        (q (rule.change r (rule.apply rest)) || Run.occurs q (rule.apply rest))) {rs : List Run}
    (hrs : Maximal rs) : Run.occurs q (rule.apply rs) = Run.occurs q' rs := by
  induction rs with
  | nil => rfl
  | cons r rest ih =>
    have hread := h (r :: rest) hrs
    have ih := ih hrs.tail
    cases happlies : rule.applies r rest with
    | false =>
      rw [apply_cons_of_not happlies] at hread ⊢
      rw [Run.occurs, Run.occurs, hread, ih]
    | true =>
      rw [apply_cons happlies] at hread ⊢
      rw [hchange r rest hrs happlies, Run.occurs, hread, ih]

end RunRule.Reads

/-- What a leftover looks like where it starts: at a `WHERE` in front of a conjunction, at blanks in
front of a `WHERE`, or at some other word. -/
structure Marks (p : List Run → Bool) : Prop where
  nil : p [] = false
  blanks (b b' : List Char) (rest : List Run) : p (.blanks b :: rest) = p (.blanks b' :: rest)
  behind (b : List Char) {rest : List Run} (h : ∀ r ∈ rest.head?, r.name ≠ "WHERE") :
    p (.blanks b :: rest) = false
  conjunction {r : Run} (h : r.isConjunction = true) (rest : List Run) : p (r :: rest) = false
  condition {r : Run} (h : r.name = "WHERE") {rest : List Run}
    (hrest : startsConjunction rest = false) : p (r :: rest) = false

namespace Marks

variable {p q : List Run → Bool}

theorem or (hp : Marks p) (hq : Marks q) : Marks fun rs => p rs || q rs where
  nil := by rw [hp.nil, hq.nil]; rfl
  blanks b b' rest := by rw [hp.blanks b b', hq.blanks b b']
  behind b rest h := by rw [hp.behind b h, hq.behind b h]; rfl
  conjunction h rest := by rw [hp.conjunction h, hq.conjunction h]; rfl
  condition h rest hrest := by rw [hp.condition h hrest, hq.condition h hrest]; rfl

theorem or_occurs (hp : Marks p) (rs : List Run) : (p rs || occurs p rs) = occurs p rs := by
  cases rs with
  | nil => rw [hp.nil, Bool.false_or]
  | cons r rest => rw [occurs, ← Bool.or_assoc, Bool.or_self]

theorem startsWhere (h : ∀ rs, q rs = true → startsConjunction rs = true) :
    Marks (starts isWhere q) where
  nil := rfl
  blanks _ _ _ := rfl
  behind _ _ _ := rfl
  conjunction hr rest := by
    rcases name_of_isConjunction hr with hr | hr <;> simp [starts, isWhere, hr]
  condition hr rest hrest := by
    have hq : q rest = false := eq_false_of_ne_true fun hq => by
      cases (h rest hq).symm.trans hrest
    simp [starts, hq]

theorem blankWhere (q : List Run → Bool) : Marks (blankWhere q) where
  nil := rfl
  blanks _ _ _ := rfl
  behind b rest h := by
    cases rest with
    | nil => rfl
    | cons r rest => simp [Run.blankWhere, starts, isWhere, h r rfl]
  conjunction {r} hr rest := by
    refine isBlanks_cons (isBlanks_eq_false ?_) _ _
    rcases name_of_isConjunction hr with hr | hr <;> simp [hr]
  condition hr rest hrest := isBlanks_cons (isBlanks_eq_false (by simp [hr])) _ _

theorem setComma (q : List Run → Bool) : Marks (setComma q) where
  nil := rfl
  blanks _ _ _ := rfl
  behind _ _ _ := rfl
  conjunction hr rest := by
    rcases name_of_isConjunction hr with hr | hr <;> simp [Run.setComma, starts, isSet, hr]
  condition hr rest hrest := by simp [Run.setComma, starts, isSet, hr]

end Marks

/-! ## Rules that change what is behind a keyword -/

/-- A rule that changes what is behind a keyword. -/
structure RunRule.Behind (rule : RunRule) (keyword : String) : Prop where
  mem : keyword ∈ ["WHERE", "SET"]
  pass {r : Run} (h : r.name ≠ keyword) (rest : List Run) :
    rule.apply (r :: rest) = r :: rule.apply rest
  exists_cons (r : Run) (rest : List Run) : ∃ behind, rule.apply (r :: rest) = r :: behind

/-- A rule that keeps the run that it applies to keeps every run in front. -/
theorem RunRule.exists_cons_of_change {rule : RunRule}
    (h : ∀ r rest, ∃ behind, rule.change r rest = r :: behind) (r : Run) (rest : List Run) :
    ∃ behind, rule.apply (r :: rest) = r :: behind := by
  cases happlies : rule.applies r rest with
  | true =>
    obtain ⟨behind, hchange⟩ := h r (rule.apply rest)
    exact ⟨behind, (apply_cons happlies).trans hchange⟩
  | false => exact ⟨_, apply_cons_of_not happlies⟩

namespace RunRule.Behind

variable {rule : RunRule} {keyword : String} (h : rule.Behind keyword)

include h

theorem starts {first : Run → Bool} (hfirst : ∀ r, first r = true → r.name ≠ keyword)
    {q q' : List Run → Bool} (hq : rule.Reads q q') :
    rule.Reads (starts first q) (starts first q') := by
  intro rs hrs
  cases rs with
  | nil => rfl
  | cons r rest =>
    cases hr : first r with
    | true =>
      rw [h.pass (hfirst r hr), Run.starts, Run.starts, hq rest hrs.tail]
    | false =>
      obtain ⟨behind, hbehind⟩ := h.exists_cons r rest
      simp [hbehind, Run.starts, hr]

theorem ne_of_isBlanks (r : Run) (hr : r.isBlanks = true) : r.name ≠ keyword := by
  have hmem := h.mem
  obtain ⟨b, rfl⟩ := exists_blanks hr
  rintro rfl
  simp at hmem

theorem blanks {q q' : List Run → Bool} (hq : rule.Reads q q') :
    rule.Reads (Run.starts isBlanks q) (Run.starts isBlanks q') :=
  h.starts h.ne_of_isBlanks hq

theorem conjunctionThen {q q' : List Run → Bool} (hq : rule.Reads q q') :
    rule.Reads (conjunctionThen q) (conjunctionThen q') := by
  refine h.blanks (h.starts ?_ (h.blanks hq))
  intro r hr
  have hmem := h.mem
  rintro rfl
  rcases name_of_isConjunction hr with hr | hr <;> simp [hr] at hmem

theorem isEnd : rule.Reads isEnd isEnd := by
  intro rs _
  cases rs with
  | nil => rfl
  | cons r rest =>
    obtain ⟨behind, hbehind⟩ := h.exists_cons r rest
    rw [hbehind, isEnd_cons, ← isEnd_cons r rest]

theorem endsClause : rule.Reads endsClause endsClause := by
  intro rs hrs
  rw [endsClause_eq, endsClause_eq, h.isEnd rs hrs, h.blanks h.isEnd rs hrs]

theorem secondName (rs : List Run) : secondName (rule.apply rs) = secondName rs := by
  cases rs with
  | nil => rfl
  | cons r rest =>
    cases hr : r.isBlanks with
    | true =>
      obtain ⟨b, rfl⟩ := exists_blanks hr
      rw [h.pass (h.ne_of_isBlanks _ hr)]
      cases rest with
      | nil => rfl
      | cons s more =>
        obtain ⟨behind, hbehind⟩ := h.exists_cons s more
        rw [hbehind]
        rfl
    | false =>
      obtain ⟨behind, hbehind⟩ := h.exists_cons r rest
      rw [hbehind, secondName_cons hr, secondName_cons hr]

theorem clause : rule.Reads (fun rs => (clause? rs).isSome) fun rs => (clause? rs).isSome := by
  intro rs _
  cases rs with
  | nil => rfl
  | cons r rest =>
    by_cases hr : r.name = keyword
    · -- the keyword starts no clause
      have hnone (rest : List Run) : (clause? (r :: rest)).isSome = false := by
        rw [isSome_clause?_cons, hr]
        rcases List.mem_cons.1 h.mem with rfl | hmem
        · simp [startsAs]
        · rw [List.mem_singleton.1 hmem]
          simp [startsAs]
      obtain ⟨behind, hbehind⟩ := h.exists_cons r rest
      simp only [hbehind, hnone]
    · simp only [h.pass hr, isSome_clause?_cons, h.secondName]

theorem startsClause : rule.Reads startsClause startsClause := by
  rw [startsClause_eq]
  exact h.blanks h.clause

theorem endsWhere : rule.Reads endsWhere endsWhere := h.endsClause.or h.startsClause

end RunRule.Behind

/-! ## Rules that take a `WHERE` away -/

/-- What stands where a `WHERE` went away: an end, or blanks in front of the next clause. -/
inductive Bare : List Run → Prop where
  | last {rs : List Run} (h : isEnd rs = true) : Bare rs
  | clause (b : List Char) {next : List Run} (h : (clause? next).isSome = true) :
    Bare (.blanks b :: next)

/-- A rule that takes a `WHERE` away together with the blanks in front of it. -/
structure RunRule.Removes (rule : RunRule) (follows : List Run → Bool) : Prop where
  pass {r : Run} {rest : List Run} (h : r.isBlanks = true → starts isWhere follows rest = false) :
    rule.apply (r :: rest) = r :: rule.apply rest
  gone (b : List Char) {rest : List Run} (h : starts isWhere follows rest = true) :
    Bare (rule.apply (.blanks b :: rest))

theorem RunRule.pass_of_not {rule : RunRule} {follows : List Run → Bool}
    (happlies : ∀ r rest, rule.applies r rest = (r.isBlanks && starts isWhere follows rest))
    {r : Run} {rest : List Run} (h : r.isBlanks = true → starts isWhere follows rest = false) :
    rule.apply (r :: rest) = r :: rule.apply rest := by
  refine apply_cons_of_not ?_
  rw [happlies]
  cases hr : r.isBlanks with
  | false => rfl
  | true => exact h hr

/-- A run that can be seen, and ends nothing. -/
def Run.Stays (r : Run) : Prop := r.isBlanks = false ∧ isEnd [r] = false

namespace Run

theorem stays_of_name {r : Run} (h : r.name ≠ "") : r.Stays := by
  obtain ⟨w, rfl⟩ := exists_word h
  exact ⟨rfl, rfl⟩

theorem stays_of_isWhere (r : Run) (h : r.isWhere = true) : r.Stays := by
  have hname : r.name = "WHERE" := by simpa [isWhere] using h
  exact stays_of_name (by simp [hname])

theorem not_mem_clauseNames_of_isWhere (r : Run) (h : r.isWhere = true) :
    r.name ∉ clauseNames := by
  have hname : r.name = "WHERE" := by simpa [isWhere] using h
  rw [hname]
  decide

theorem stays_of_isSet (r : Run) (h : r.isSet = true) : r.Stays := by
  have hname : r.name = "SET" := by simpa [isSet] using h
  exact stays_of_name (by simp [hname])

theorem stays_of_isConjunction (r : Run) (h : r.isConjunction = true) : r.Stays := by
  refine stays_of_name ?_
  rcases name_of_isConjunction h with h | h <;> simp [h]

theorem stays_of_isComma (r : Run) (h : r.isComma = true) : r.Stays := by
  obtain rfl : r = piece (.live ',') := by simpa [isComma] using h
  exact ⟨rfl, by decide⟩

end Run

theorem Bare.starts {rs : List Run} (h : Bare rs) {first : Run → Bool}
    (hfirst : ∀ r, first r = true → r.Stays) (follows : List Run → Bool) :
    starts first follows rs = false := by
  cases rs with
  | nil => rfl
  | cons r rest =>
    have hr : first r = false := eq_false_of_ne_true fun hr => by
      obtain ⟨hblanks, hend⟩ := hfirst r hr
      cases h with
      | last h =>
        rcases r with ⟨kind, s⟩ | p
        · cases h
        · cases hend.symm.trans h
      | clause b h => cases hblanks
    simp [Run.starts, hr]

/-- A run of a sort that no rule takes a `WHERE` in front of, and that starts no clause. -/
def Run.Spare (r : Run) : Prop := r.Stays ∧ r.name ∉ "WHERE" :: clauseNames

theorem Run.spare_of_isConjunction (r : Run) (h : r.isConjunction = true) : r.Spare := by
  refine ⟨stays_of_isConjunction r h, ?_⟩
  rcases name_of_isConjunction h with h | h
  · rw [h]
    decide
  · rw [h]
    decide

theorem Run.spare_of_isComma (r : Run) (h : r.isComma = true) : r.Spare := by
  refine ⟨stays_of_isComma r h, ?_⟩
  obtain rfl : r = piece (.live ',') := by simpa [isComma] using h
  show "" ∉ _
  decide

/-- The next clause starts with a word of its own. -/
theorem Run.starts_of_clause {next : List Run} (h : (clause? next).isSome = true)
    {first : Run → Bool} (hfirst : ∀ r, first r = true → r.name ∉ clauseNames)
    (follows : List Run → Bool) : starts first follows next = false := by
  cases next with
  | nil => rfl
  | cons r rest =>
    have hr : first r = false := eq_false_of_ne_true fun hr => by
      rw [clause?_of_name (hfirst r hr)] at h
      cases h
    simp [starts, hr]

/-- Behind blanks there is a run of some sort neither at an end nor in front of the next clause. -/
theorem Bare.blanksThen {rs : List Run} (h : Bare rs) {first : Run → Bool}
    (hfirst : ∀ r, first r = true → r.name ∉ clauseNames) (follows : List Run → Bool) :
    Run.starts isBlanks (Run.starts first follows) rs = false := by
  cases h with
  | last h =>
    rcases rs with _ | ⟨⟨kind, s⟩ | p, rest⟩
    · rfl
    · cases h
    · rfl
  | clause b h => exact starts_of_clause h hfirst follows

theorem Bare.clause? {rs : List Run} (h : Bare rs) : clause? rs = none := by
  cases h with
  | last h =>
    rcases rs with _ | ⟨⟨kind, s⟩ | p, rest⟩
    · rfl
    · cases h
    · exact clause?_of_name (by simp [clauseNames]) rest
  | clause b h => exact clause?_of_name (by simp [clauseNames]) _

theorem Bare.secondName {rs : List Run} (h : Bare rs) : secondName rs ∉ ["BY", "UPDATE"] := by
  cases h with
  | last h =>
    rcases rs with _ | ⟨⟨kind, s⟩ | p, rest⟩
    · decide
    · cases h
    · show "" ∉ _
      decide
  | clause b h =>
    rename_i next
    cases next with
    | nil => cases h
    | cons r rest =>
      -- the first of two words that start a clause is never the second one
      rw [isSome_clause?_cons] at h
      intro hname
      simp only [Run.secondName, List.mem_cons, List.not_mem_nil, or_false] at hname
      rcases hname with hname | hname <;> simp [hname, startsAs] at h

theorem Run.secondName_of_starts (b : List Char) {follows : List Run → Bool} {rest : List Run}
    (h : starts isWhere follows rest = true) : secondName (.blanks b :: rest) = "WHERE" := by
  cases rest with
  | nil => cases h
  | cons r rest =>
    have hname : r.isWhere = true := (Bool.and_eq_true_iff.1 h).1
    show r.name = "WHERE"
    simpa [isWhere] using hname

namespace RunRule.Removes

variable {rule : RunRule} {follows : List Run → Bool} (h : rule.Removes follows)

include h

theorem pass_of_isBlanks {r : Run} (hr : r.isBlanks = false) (rest : List Run) :
    rule.apply (r :: rest) = r :: rule.apply rest := by
  refine h.pass fun hblanks => ?_
  cases hr.symm.trans hblanks

/-- To trace a look back, it is enough to do so where a run that is not blanks comes first, where
blanks stay, and where blanks go away with a `WHERE`. -/
theorem reads {q q' : List Run → Bool} (hnil : q [] = q' [])
    (hrun : ∀ r rest, Maximal (r :: rest) → r.isBlanks = false →
      q (r :: rule.apply rest) = q' (r :: rest))
    (hkept : ∀ b rest, Maximal (.blanks b :: rest) → Run.starts isWhere follows rest = false →
      q (.blanks b :: rule.apply rest) = q' (.blanks b :: rest))
    (hgone : ∀ b rest, Run.starts isWhere follows rest = true →
      q (rule.apply (.blanks b :: rest)) = q' (.blanks b :: rest)) : rule.Reads q q' := by
  intro rs hrs
  cases rs with
  | nil => exact hnil
  | cons r rest =>
    cases hr : r.isBlanks with
    | false => rw [h.pass_of_isBlanks hr, hrun r rest hrs hr]
    | true =>
      obtain ⟨b, rfl⟩ := exists_blanks hr
      cases hwhere : Run.starts isWhere follows rest with
      | true => exact hgone b rest hwhere
      | false => rw [h.pass fun _ => hwhere, hkept b rest hrs hwhere]

theorem starts {first : Run → Bool} (hfirst : ∀ r, first r = true → r.Stays)
    {q q' : List Run → Bool} (hq : rule.Reads q q') :
    rule.Reads (starts first q) (starts first q') := by
  have hnone (b : List Char) (follows : List Run → Bool) (rest : List Run) :
      Run.starts first follows (.blanks b :: rest) = false := by
    rw [starts_cons, Bool.and_eq_false_iff]
    refine .inl (eq_false_of_ne_true fun hfound => ?_)
    cases (hfirst _ hfound).1.symm.trans (rfl : (Run.blanks b).isBlanks = true)
  refine h.reads rfl (fun r rest hrs _ => ?_) (fun b rest _ _ => ?_) fun b rest hwhere => ?_
  · rw [starts_cons, starts_cons, hq rest hrs.tail]
  · rw [hnone, hnone]
  · rw [(h.gone b hwhere).starts hfirst, hnone]

/-- Behind blanks the first run stays. -/
theorem exists_cons {b : List Char} {r : Run} {rest : List Run}
    (hrs : Maximal (.blanks b :: r :: rest)) : rule.apply (r :: rest) = r :: rule.apply rest := by
  refine h.pass_of_isBlanks (eq_false_of_ne_true fun hr => ?_) rest
  obtain ⟨c, rfl⟩ := exists_blanks hr
  exact hrs.apart_head _ rfl _ rfl rfl

theorem isEnd {b : List Char} {rest : List Run} (hrs : Maximal (.blanks b :: rest)) :
    isEnd (rule.apply rest) = isEnd rest := by
  cases rest with
  | nil => rfl
  | cons r more =>
    rw [h.exists_cons hrs, isEnd_cons, ← isEnd_cons r more]

theorem blanks {q q' : List Run → Bool} (hq : rule.Reads q q')
    (hgone : ∀ b rest, Run.starts isWhere follows rest = true →
      Run.starts isBlanks q (rule.apply (.blanks b :: rest)) = false) :
    rule.Reads (Run.starts isBlanks q)
      (Run.starts isBlanks fun rs => !Run.starts isWhere follows rs && q' rs) := by
  refine h.reads rfl (fun r rest _ hr => ?_) (fun b rest hrs hwhere => ?_) fun b rest hwhere => ?_
  · rw [isBlanks_cons hr, isBlanks_cons hr]
  · rw [starts_blanks, starts_blanks, hwhere, hq rest hrs.tail]
    rfl
  · rw [hgone b rest hwhere, starts_blanks, hwhere]
    rfl

theorem secondName (first : String) :
    rule.Reads (fun rs => startsAs first (secondName rs))
      fun rs => startsAs first (Run.secondName rs) := by
  refine h.reads rfl (fun r rest _ hr => ?_) (fun b rest hrs _ => ?_) fun b rest hwhere => ?_
  · rw [secondName_cons hr, secondName_cons hr]
  · cases rest with
    | nil => rfl
    | cons s more =>
      rw [h.exists_cons hrs]
      rfl
  · refine startsAs_congr (h.gone b hwhere).secondName ?_ first
    rw [secondName_of_starts b hwhere]
    decide

theorem clause : rule.Reads (fun rs => (clause? rs).isSome) fun rs => (clause? rs).isSome := by
  have hblanks (b : List Char) (rest : List Run) : Run.clause? (.blanks b :: rest) = none :=
    clause?_of_name (by simp [clauseNames]) rest
  refine h.reads rfl (fun r rest hrs _ => ?_) (fun b rest _ _ => ?_) fun b rest hwhere => ?_
  · rw [isSome_clause?_cons, isSome_clause?_cons]
    exact h.secondName r.name rest hrs.tail
  · rw [hblanks, hblanks]
  · rw [(h.gone b hwhere).clause?, hblanks]

theorem blanksThen {first : Run → Bool} (hfirst : ∀ r, first r = true → r.Spare)
    {q q' : List Run → Bool} (hq : rule.Reads q q') :
    rule.Reads (Run.starts isBlanks (Run.starts first q))
      (Run.starts isBlanks (Run.starts first q')) := by
  have hnext (r : Run) (hr : first r = true) : r.name ∉ clauseNames := fun hmem =>
    (hfirst r hr).2 (List.mem_cons_of_mem _ hmem)
  refine (h.blanks (h.starts (fun r hr => (hfirst r hr).1) hq) fun b rest hwhere =>
    (h.gone b hwhere).blanksThen hnext q).congr fun rs _ => ?_
  rcases rs with _ | ⟨r, _ | ⟨t, more⟩⟩
  · rfl
  · simp [Run.starts]
  · have hwhere (ht : first t = true) : t.isWhere = false := eq_false_of_ne_true fun hname => by
      refine (hfirst t ht).2 (List.mem_cons.2 (.inl ?_))
      simpa [isWhere] using hname
    cases ht : first t with
    | false => simp [Run.starts, ht]
    | true => simp [Run.starts, ht, hwhere ht]

theorem blankWhere {q q' : List Run → Bool} (hq : rule.Reads q q') :
    rule.Reads (blankWhere q) (blankWhere fun rs => !follows rs && q' rs) := by
  refine (h.blanks (h.starts stays_of_isWhere hq) fun b rest hwhere =>
    (h.gone b hwhere).blanksThen not_mem_clauseNames_of_isWhere q).congr fun rs _ => ?_
  rcases rs with _ | ⟨r, _ | ⟨t, more⟩⟩
  · rfl
  · simp [Run.blankWhere, Run.starts]
  · cases ht : t.isWhere with
    | false => simp [Run.blankWhere, Run.starts, ht]
    | true => simp [Run.blankWhere, Run.starts, ht]

theorem commaNext : rule.Reads commaNext commaNext :=
  (h.starts stays_of_isComma (.const true)).or (h.blanksThen spare_of_isComma (.const true))

theorem setComma {q q' : List Run → Bool} (hq : rule.Reads q q') :
    rule.Reads (setComma q) (setComma q') :=
  h.starts stays_of_isSet (h.blanksThen spare_of_isComma hq)

end RunRule.Removes

/-! ## The rules -/

theorem Maximal.without {rs : List Run} (h : Maximal rs) : Maximal (without rs) := by
  unfold Run.without
  split
  · next hstarts =>
    rcases rs with _ | ⟨⟨_ | _, b⟩ | p, _ | ⟨c, _ | ⟨⟨_ | _, d⟩ | q, behind⟩⟩⟩
    all_goals try cases hstarts
    exact h.tail.tail.replace h.head rfl
  · exact h

namespace Run

/-- Behind a `WHERE` a conjunction goes away. -/
theorem afterWhere_where {r : Run} (h : r.name = "WHERE") (rest : List Run) :
    afterWhere.apply (r :: rest) = r :: afterWhere.apply (without rest) := by
  cases hstarts : startsConjunction rest with
  | false =>
    have hnone : without rest = rest := by simp [without, hstarts]
    rw [hnone, RunRule.apply_cons_of_not (by simp [afterWhere, hstarts])]
  | true =>
    have happlies : afterWhere.applies r rest = true := by simp [afterWhere, h, hstarts]
    rw [RunRule.apply_cons happlies]
    obtain ⟨w, b, c, d, behind, rfl, -, -, rfl, happly⟩ := afterWhere_cases happlies
    have hsome : without (blanks b :: c :: blanks d :: behind) = blanks b :: behind := by
      rw [without, if_pos hstarts]
      rfl
    rw [happly, hsome, afterWhere_pass (by simp)]
    rfl

theorem afterWhere_behind : afterWhere.Behind "WHERE" where
  mem := by decide
  pass := afterWhere_pass
  exists_cons := RunRule.exists_cons_of_change fun _ _ => ⟨_, rfl⟩

theorem afterSet_behind : afterSet.Behind "SET" where
  mem := by decide
  pass := afterSet_pass
  exists_cons := RunRule.exists_cons_of_change fun _ _ => ⟨_, rfl⟩

theorem whereAtEnd_gone (b : List Char) {rest : List Run}
    (h : starts isWhere endsClause rest = true) :
    isEnd (whereAtEnd.apply (blanks b :: rest)) = true := by
  have happlies : whereAtEnd.applies (blanks b) rest = true := by
    rw [starts_isWhere] at h
    exact h
  rw [RunRule.apply_cons happlies]
  obtain ⟨c, w, behind, -, rfl, -, hends, happly⟩ := whereAtEnd_cases happlies
  rw [happly]
  show isEnd (dropBlanks (takeBlanks behind ++ _)) = true
  rw [dropBlanks_end hends]
  unfold endsClause at hends
  cases hlast : dropBlanks behind with
  | nil => rfl
  | cons r more =>
    rw [hlast] at hends
    rcases r with ⟨kind, s⟩ | p
    · cases hends
    · exact hends

theorem whereAtEnd_removes : whereAtEnd.Removes endsClause where
  pass := RunRule.pass_of_not fun _ _ => by rw [starts_isWhere]; rfl
  gone b rest h := .last (whereAtEnd_gone b h)

theorem whereBeforeClause_gone (b : List Char) {rest : List Run}
    (h : starts isWhere startsClause rest = true) :
    ∃ next, whereBeforeClause.apply (blanks b :: rest) = blanks [' '] :: next ∧
      (clause? next).isSome = true := by
  have happlies : whereBeforeClause.applies (blanks b) rest = true := by
    rw [starts_isWhere] at h
    exact h
  rw [RunRule.apply_cons happlies]
  obtain ⟨c, w, d, next, front, behind, -, rfl, -, hclause, happly⟩ :=
    whereBeforeClause_cases happlies
  rw [happly]
  exact ⟨_, rfl, isSome_clause?_append hclause _⟩

theorem whereBeforeClause_removes : whereBeforeClause.Removes startsClause where
  pass := RunRule.pass_of_not fun _ _ => by rw [starts_isWhere]; rfl
  gone b rest h := by
    obtain ⟨next, happly, hnext⟩ := whereBeforeClause_gone b h
    rw [happly]
    exact .clause [' '] hnext

/-! ### An end behind a `WHERE` -/

theorem starts_of_isEnd {rs : List Run} (h : isEnd rs = true) (follows : List Run → Bool) :
    starts isBlanks follows rs = false := by
  rcases rs with _ | ⟨⟨kind, s⟩ | p, rest⟩
  · rfl
  · cases h
  · rfl

theorem whereAtEnd_endsClause :
    whereAtEnd.Reads endsClause fun rs => endsClause rs || blankWhere endsClause rs := by
  refine whereAtEnd_removes.reads rfl (fun r rest _ hr => ?_) (fun b rest hrs hwhere => ?_)
    fun b rest hwhere => ?_
  · rw [blankWhere, isBlanks_cons hr, Bool.or_false, endsClause_cons hr, endsClause_cons hr]
  · rw [blankWhere, starts_blanks, hwhere, Bool.or_false]
    exact whereAtEnd_removes.isEnd hrs
  · rw [blankWhere, starts_blanks, hwhere, Bool.or_true, endsClause_eq, whereAtEnd_gone b hwhere,
      Bool.true_or]

theorem whereAtEnd_startsClause : whereAtEnd.Reads startsClause startsClause := by
  rw [startsClause_eq]
  refine (whereAtEnd_removes.blanks whereAtEnd_removes.clause fun b rest hwhere =>
    starts_of_isEnd (whereAtEnd_gone b hwhere) _).congr fun rs _ => ?_
  rcases rs with _ | ⟨r, rest⟩
  · rfl
  · cases hclause : (clause? rest).isSome with
    | false => simp [starts, hclause]
    | true =>
      have hnone := starts_of_clause hclause not_mem_clauseNames_of_isWhere endsClause
      simp only [starts_cons, hclause, hnone, Bool.not_false, Bool.and_self]

theorem whereAtEnd_conjunctionThen {q q' : List Run → Bool} (hq : whereAtEnd.Reads q q') :
    whereAtEnd.Reads (conjunctionThen q)
      (conjunctionThen fun rs => !starts isWhere endsClause rs && q' rs) :=
  whereAtEnd_removes.blanksThen spare_of_isConjunction
    (whereAtEnd_removes.blanks hq fun b _ hwhere =>
      starts_of_isEnd (whereAtEnd_gone b hwhere) q)

/-! ### The next clause behind a `WHERE` -/

theorem whereBeforeClause_endsClause : whereBeforeClause.Reads endsClause endsClause := by
  refine whereBeforeClause_removes.reads rfl (fun r rest _ hr => ?_) (fun b rest hrs _ => ?_)
    fun b rest hwhere => ?_
  · rw [endsClause_cons hr, endsClause_cons hr]
  · exact whereBeforeClause_removes.isEnd hrs
  · -- neither the next clause nor the `WHERE` in front of it ends anything
    obtain ⟨next, happly, hnext⟩ := whereBeforeClause_gone b hwhere
    have hnext : isEnd next = false := by
      rcases next with _ | ⟨⟨kind, s⟩ | p, more⟩
      · cases hnext
      · rfl
      · rw [clause?_of_name (by simp [clauseNames])] at hnext
        cases hnext
    have hrest : isEnd rest = false := by
      rcases rest with _ | ⟨⟨kind, s⟩ | p, more⟩
      · cases hwhere
      · rfl
      · cases hwhere
    rw [happly]
    exact hnext.trans hrest.symm

theorem whereBeforeClause_startsClause : whereBeforeClause.Reads startsClause fun rs =>
    startsClause rs || blankWhere startsClause rs := by
  refine whereBeforeClause_removes.reads rfl (fun r rest _ hr => ?_) (fun b rest hrs hwhere => ?_)
    fun b rest hwhere => ?_
  · simp only [startsClause_eq, blankWhere, isBlanks_cons hr, Bool.or_false]
  · rw [blankWhere, starts_blanks, hwhere, Bool.or_false]
    exact whereBeforeClause_removes.clause rest hrs.tail
  · obtain ⟨next, happly, hnext⟩ := whereBeforeClause_gone b hwhere
    rw [blankWhere, starts_blanks, hwhere, Bool.or_true, happly]
    exact hnext

theorem whereBeforeClause_startsBlanks :
    whereBeforeClause.Reads (starts isBlanks fun _ => true) (starts isBlanks fun _ => true) := by
  refine whereBeforeClause_removes.reads rfl (fun r rest _ hr => ?_) (fun _ _ _ _ => rfl)
    fun b rest hwhere => ?_
  · rw [isBlanks_cons hr, isBlanks_cons hr]
  · obtain ⟨next, happly, -⟩ := whereBeforeClause_gone b hwhere
    rw [happly]
    rfl

/-! ### A conjunction behind a `WHERE` -/

theorem afterWhere_startsWhere {q q' : List Run → Bool} (hq : afterWhere.Reads q q') :
    afterWhere.Reads (starts isWhere q) (starts isWhere fun rs => q' (without rs)) := by
  intro rs hrs
  cases rs with
  | nil => rfl
  | cons r rest =>
    cases hr : r.isWhere with
    | true =>
      have hname : r.name = "WHERE" := by simpa [isWhere] using hr
      rw [afterWhere_where hname, starts, starts, hq _ hrs.tail.without]
    | false =>
      have hname : r.name ≠ "WHERE" := by simpa [isWhere] using hr
      rw [afterWhere_behind.pass hname, starts, starts, hr]
      rfl

theorem afterWhere_blankWhere {q q' : List Run → Bool} (hq : afterWhere.Reads q q') :
    afterWhere.Reads (blankWhere q) (blankWhere fun rs => q' (without rs)) :=
  afterWhere_behind.blanks (afterWhere_startsWhere hq)

end Run

/-! ## Leftovers somewhere -/

namespace Marks

variable {p p' : List Run → Bool} (hp : Marks p)

include hp

theorem occurs_afterWhere (hreads : Run.afterWhere.Reads p p') {rs : List Run}
    (hrs : Maximal rs) : occurs p (Run.afterWhere.apply rs) = occurs p' rs := by
  refine hreads.occurs (fun r rest _ happlies => ?_) hrs
  obtain ⟨w, b, c, d, behind, rfl, -, hc, rfl, happly⟩ := afterWhere_cases happlies
  have hname : ∀ r ∈ (c :: .blanks d :: Run.afterWhere.apply behind).head?, r.name ≠ "WHERE" := by
    rcases name_of_isConjunction hc with hc | hc <;> simp [hc]
  -- neither the conjunction nor the blanks behind it are the start of a leftover
  rw [happly]
  show occurs p (.word w :: .blanks b :: Run.afterWhere.apply behind) =
    (p (.word w :: .blanks b :: Run.afterWhere.apply behind) || _)
  simp only [occurs, hp.conjunction hc, hp.blanks b d, hp.behind d hname, Bool.false_or]

theorem occurs_whereAtEnd (hreads : Run.whereAtEnd.Reads p p') {rs : List Run}
    (hrs : Maximal rs) : occurs p (Run.whereAtEnd.apply rs) = occurs p' rs := by
  refine hreads.occurs (fun r rest _ happlies => ?_) hrs
  have hend : isEnd (Run.whereAtEnd.apply (r :: rest)) = true := by
    obtain ⟨hblanks, hwhere⟩ := Bool.and_eq_true_iff.1 happlies
    obtain ⟨b, rfl⟩ := exists_blanks hblanks
    rw [← starts_isWhere] at hwhere
    exact whereAtEnd_gone b hwhere
  rw [RunRule.apply_cons happlies] at hend
  obtain ⟨b, w, behind, rfl, rfl, hname, hends, happly⟩ := whereAtEnd_cases happlies
  rw [happly] at hend ⊢
  change isEnd (dropBlanks (takeBlanks behind ++ _)) = true at hend
  show occurs p (dropBlanks (takeBlanks behind ++ _)) =
    (p (dropBlanks (takeBlanks behind ++ _)) || _)
  rw [dropBlanks_end hends] at hend ⊢
  generalize (dropBlanks behind).take 1 ++
    Run.whereAtEnd.apply ((dropBlanks behind).drop 1) = last at hend
  have hlast : ∀ r ∈ last.head?, r.name ≠ "WHERE" := by
    rcases last with _ | ⟨⟨kind, s⟩ | q, more⟩
    · nofun
    · cases hend
    · simp
  -- neither the `WHERE` nor the blanks behind it are the start of a leftover
  have htake : takeBlanks behind = [] ∨ ∃ d, takeBlanks behind = [.blanks d] := by
    rcases behind with _ | ⟨⟨_ | _, d⟩ | p, more⟩
    · exact .inl rfl
    · exact .inl rfl
    · exact .inr ⟨d, rfl⟩
    · exact .inl rfl
  have hwhere : p (.word w :: (takeBlanks behind ++ last)) = false := by
    refine hp.condition hname ?_
    rw [startsConjunction_eq]
    rcases htake with htake | ⟨d, htake⟩
    · rw [htake]
      exact starts_of_isEnd hend _
    · rw [htake]
      exact (Bare.last hend).starts stays_of_isConjunction _
  have hblanks : occurs p (takeBlanks behind ++ last) = occurs p last := by
    rcases htake with htake | ⟨d, htake⟩
    · rw [htake]
      rfl
    · rw [htake, List.singleton_append, occurs, hp.behind d hlast, Bool.false_or]
  rw [occurs, hwhere, Bool.false_or, hblanks, hp.or_occurs]

theorem occurs_whereBeforeClause (hreads : Run.whereBeforeClause.Reads p p') {rs : List Run}
    (hrs : Maximal rs) : occurs p (Run.whereBeforeClause.apply rs) = occurs p' rs := by
  refine hreads.occurs (fun r rest _ happlies => ?_) hrs
  obtain ⟨b, w, d, next, front, behind, rfl, rfl, hname, hclause, happly⟩ :=
    whereBeforeClause_cases happlies
  have hnext := isSome_clause?_append hclause (Run.whereBeforeClause.apply behind)
  rw [happly]
  show occurs p (.blanks [' '] :: (front ++ Run.whereBeforeClause.apply behind)) =
    (p (.blanks [' '] :: (front ++ Run.whereBeforeClause.apply behind)) || _)
  generalize front ++ Run.whereBeforeClause.apply behind = next at hnext
  -- the `WHERE` is not the start of a leftover, and blanks are like any others
  have hwhere : p (.word w :: .blanks d :: next) = false := by
    refine hp.condition hname ?_
    rw [startsConjunction_eq]
    exact starts_of_clause hnext
      (fun r hr hmem => (spare_of_isConjunction r hr).2 (List.mem_cons_of_mem _ hmem)) _
  simp only [occurs, hwhere, hp.blanks d [' '], Bool.false_or]
  rw [← Bool.or_assoc, Bool.or_self]

end Marks

/-! ## Leftovers that are left -/

namespace Run

/-- Whether a rule applies where runs start. -/
def unsettled (rs : List Run) : Bool :=
  starts isWhere startsConjunction rs || blankWhere endsWhere rs || setComma (fun _ => true) rs

/-- Whether runs start with a leftover, by what is found behind a `WHERE`, behind blanks and a
`WHERE`, and behind a `SET`, a comma and a `WHERE`. -/
def leftoverOf (doubled emptied reached : List Run → Bool) (rs : List Run) : Bool :=
  starts isWhere doubled rs || blankWhere emptied rs ||
    setComma (fun rs => commaNext rs || starts isWhere reached rs) rs

theorem unsettled_marks : Marks unsettled :=
  ((Marks.startsWhere fun _ => id).or (.blankWhere _)).or (.setComma _)

theorem leftoverOf_marks {doubled : List Run → Bool}
    (h : ∀ rs, doubled rs = true → startsConjunction rs = true)
    (emptied reached : List Run → Bool) : Marks (leftoverOf doubled emptied reached) :=
  ((Marks.startsWhere h).or (.blankWhere _)).or (.setComma _)

/-- At blanks there is a rule for a `WHERE` only. -/
theorem unsettled_blanks (b : List Char) (rest : List Run) :
    unsettled (blanks b :: rest) = starts isWhere endsWhere rest := by
  have hblanks : (blanks b).isBlanks = true := rfl
  have hwhere : (blanks b).isWhere = false := rfl
  have hset : (blanks b).isSet = false := rfl
  simp [unsettled, blankWhere, setComma, starts_cons, hblanks, hwhere, hset]

/-- At a `SET` there is a rule for a comma only. -/
theorem unsettled_set {r : Run} (h : r.name = "SET") (b : List Char) (rest : List Run) :
    unsettled (r :: blanks b :: rest) = starts isComma (fun _ => true) rest := by
  have hwhere : r.isWhere = false := by simp [isWhere, h]
  have hblanks : r.isBlanks = false := isBlanks_eq_false (by simp [h])
  have hset : r.isSet = true := by simp [isSet, h]
  have hblanks' : (blanks b).isBlanks = true := rfl
  simp [unsettled, blankWhere, setComma, starts_cons, hwhere, hblanks, hset, hblanks']

theorem leftoverOf_set {r : Run} (h : r.name = "SET") (b : List Char)
    (doubled emptied reached : List Run → Bool) (rest : List Run) :
    leftoverOf doubled emptied reached (r :: blanks b :: piece (.live ',') :: rest) =
      (commaNext rest || starts isWhere reached rest) := by
  have hwhere : r.isWhere = false := by simp [isWhere, h]
  have hblanks : r.isBlanks = false := isBlanks_eq_false (by simp [h])
  have hset : r.isSet = true := by simp [isSet, h]
  have hblanks' : (blanks b).isBlanks = true := rfl
  have hcomma : (piece (.live ',')).isComma = true := rfl
  simp [leftoverOf, blankWhere, setComma, starts_cons, hwhere, hblanks, hset, hblanks', hcomma]

/-- Without a comma, nothing is left at a `SET`. -/
theorem setComma_of_not (follows : List Run → Bool) {r : Run} {rest : List Run}
    (h : afterSet.applies r rest = false) {rs : List Run}
    (hrs : startsComma rs = startsComma rest) : setComma follows (r :: rs) = false := by
  rcases Bool.and_eq_false_iff.1 h with hset | hcomma
  · have hset : r.isSet = false := hset
    rw [setComma, starts_cons, hset, Bool.false_and]
  · rw [← hrs, startsComma_eq] at hcomma
    rw [setComma, starts_cons, Bool.and_eq_false_iff]
    refine .inr (eq_false_of_ne_true fun hstarts => ?_)
    rw [starts_mono (fun rs => starts_mono fun _ _ => rfl) hstarts] at hcomma
    cases hcomma

theorem afterSet_startsWhere {q q' : List Run → Bool} (hq : afterSet.Reads q q') :
    afterSet.Reads (starts isWhere q) (starts isWhere q') := by
  refine afterSet_behind.starts (fun r hr => ?_) hq
  have hname : r.name = "WHERE" := by simpa [isWhere] using hr
  simp [hname]

theorem afterSet_startsComma :
    afterSet.Reads (starts isComma fun _ => true) (starts isComma fun _ => true) := by
  refine afterSet_behind.starts (fun r hr => ?_) (.const true)
  obtain rfl : r = piece (.live ',') := by simpa [isComma] using hr
  simp

/-- What is found behind a comma that went away together with the blanks behind it. -/
theorem occurs_behind_comma {rs : List Run} (hrs : Maximal rs) :
    (starts isComma (fun _ => true) (dropBlanks (afterSet.apply rs)) ||
      (starts isWhere endsWhere (dropBlanks (afterSet.apply rs)) ||
        occurs unsettled (dropBlanks (afterSet.apply rs)))) =
      (commaNext rs || starts isWhere endsWhere rs || occurs unsettled (afterSet.apply rs)) := by
  cases hblanks : starts isBlanks (fun _ => true) rs with
  | true =>
    rcases rs with _ | ⟨r, rest⟩
    · cases hblanks
    obtain ⟨b, rfl⟩ := exists_blanks (r := r) (by simpa [starts_cons] using hblanks)
    have hnext : commaNext (blanks b :: rest) = starts isComma (fun _ => true) rest := by
      rw [commaNext, starts_blanks]
      rfl
    have hnone : starts isWhere endsWhere (blanks b :: rest) = false := rfl
    rw [afterSet_pass (by simp), dropBlanks, occurs, unsettled_blanks, hnext, hnone,
      afterSet_startsComma rest hrs.tail, Bool.or_false]
  | false =>
    have hkeep : dropBlanks (afterSet.apply rs) = afterSet.apply rs := by
      refine dropBlanks_of_not ?_
      rw [afterSet_behind.blanks (.const true) rs hrs, hblanks]
    have hnext : commaNext rs = starts isComma (fun _ => true) rs := by
      rw [commaNext, starts_of_not hblanks, Bool.or_false]
    rw [hkeep, hnext, afterSet_startsComma rs hrs,
      afterSet_startsWhere afterSet_behind.endsWhere rs hrs, Bool.or_assoc]

/-- What is unsettled when commas behind a `SET` have gone. -/
theorem occurs_afterSet {rs : List Run} (hrs : Maximal rs) :
    occurs unsettled (afterSet.apply rs) =
      occurs (leftoverOf startsConjunction endsWhere endsWhere) rs := by
  have hconjunctions : afterSet.Reads (starts isWhere startsConjunction)
      (starts isWhere startsConjunction) := by
    rw [startsConjunction_eq]
    exact afterSet_startsWhere (afterSet_behind.conjunctionThen (.const true))
  have hwhere := afterSet_startsWhere afterSet_behind.endsWhere
  induction rs with
  | nil => rfl
  | cons r rest ih =>
    have ih := ih hrs.tail
    cases happlies : afterSet.applies r rest with
    | false =>
      have hleft := hconjunctions (r :: rest) hrs
      have hright := afterSet_behind.blanks hwhere (r :: rest) hrs
      rw [RunRule.apply_cons_of_not happlies] at hleft hright ⊢
      have hcomma : startsComma (afterSet.apply rest) = startsComma rest := by
        rw [startsComma_eq]
        exact afterSet_behind.blanks afterSet_startsComma rest hrs.tail
      simp only [occurs, ih, unsettled, leftoverOf, hleft, blankWhere, hright,
        setComma_of_not _ happlies hcomma, setComma_of_not _ happlies rfl]
    | true =>
      obtain ⟨w, b, behind, rfl, hname, rfl, happly⟩ := afterSet_cases happlies
      have hchange : afterSet.apply (word w :: blanks b :: piece (.live ',') :: behind) =
          word w :: blanks b :: dropBlanks (afterSet.apply behind) := by
        rw [RunRule.apply_cons happlies, happly]
        rfl
      have hcomma : occurs unsettled (afterSet.apply (blanks b :: piece (.live ',') :: behind)) =
          occurs unsettled (afterSet.apply behind) := by
        rw [happly, occurs, occurs, unsettled_marks.behind b (by simp)]
        simp [unsettled, blankWhere, setComma, starts_cons, isWhere, isSet, isBlanks, kind?]
      rw [hcomma] at ih
      rw [hchange, occurs, occurs, unsettled_set hname, unsettled_blanks, occurs,
        leftoverOf_set hname, ← ih]
      exact occurs_behind_comma hrs.tail.tail.tail

/-! ### Neither an end nor a clause -/

theorem endsClause_of_startsClause {rs : List Run} (h : startsClause rs = true) :
    endsClause rs = false := by
  rcases rs with _ | ⟨⟨_ | _, b⟩ | p, rest⟩
  · cases h
  · cases h
  · rcases rest with _ | ⟨⟨kind, s⟩ | p, more⟩
    · cases h
    · rfl
    · rw [startsClause, clause?_of_name (by simp [clauseNames])] at h
      cases h
  · cases h

theorem startsClause_of_blankWhere {q : List Run → Bool} {rs : List Run}
    (h : blankWhere q rs = true) : startsClause rs = false := by
  rcases rs with _ | ⟨r, rest⟩
  · cases h
  · obtain ⟨hr, hwhere⟩ := Bool.and_eq_true_iff.1 h
    obtain ⟨b, rfl⟩ := exists_blanks hr
    refine eq_false_of_ne_true fun hclause => ?_
    rw [starts_of_clause hclause not_mem_clauseNames_of_isWhere] at hwhere
    cases hwhere

theorem endsClause_of_blankWhere {q : List Run → Bool} {rs : List Run}
    (h : blankWhere q rs = true) : endsClause rs = false := by
  rcases rs with _ | ⟨r, rest⟩
  · cases h
  · obtain ⟨hr, hwhere⟩ := Bool.and_eq_true_iff.1 h
    obtain ⟨b, rfl⟩ := exists_blanks hr
    rcases rest with _ | ⟨⟨kind, s⟩ | p, more⟩
    · cases hwhere
    · rfl
    · cases hwhere

theorem blankWhere_or (q s : List Run → Bool) (rs : List Run) :
    blankWhere (fun rs => q rs || s rs) rs = (blankWhere q rs || blankWhere s rs) := by
  rcases rs with _ | ⟨r, _ | ⟨t, more⟩⟩
  · rfl
  · simp [blankWhere, starts]
  · simp only [blankWhere, starts_cons, Bool.and_or_distrib_left]

/-! ### Rule by rule -/

end Run

theorem RunRule.Removes.leftoverOf {rule : RunRule} {follows : List Run → Bool}
    (h : rule.Removes follows)
    {doubled doubled' emptied emptied' reached reached' : List Run → Bool}
    (hdoubled : rule.Reads doubled doubled') (hemptied : rule.Reads emptied emptied')
    (hreached : rule.Reads reached reached') :
    rule.Reads (leftoverOf doubled emptied reached)
      (leftoverOf doubled' (fun rs => !follows rs && emptied' rs) reached') :=
  ((h.starts stays_of_isWhere hdoubled).or (h.blankWhere hemptied)).or
    (h.setComma (h.commaNext.or (h.starts stays_of_isWhere hreached)))

namespace Run

/-- What is left when no `WHERE` stands in front of the next clause any more. -/
theorem whereBeforeClause_leftoverOf :
    whereBeforeClause.Reads (leftoverOf startsConjunction endsWhere endsWhere)
      (leftoverOf startsConjunction (fun rs => endsClause rs || blankWhere startsClause rs)
        fun rs => endsWhere rs || blankWhere startsClause rs) := by
  have hdoubled : whereBeforeClause.Reads startsConjunction startsConjunction := by
    rw [startsConjunction_eq]
    exact whereBeforeClause_removes.blanksThen spare_of_isConjunction whereBeforeClause_startsBlanks
  have hends := whereBeforeClause_endsClause.or whereBeforeClause_startsClause
  have hread := whereBeforeClause_removes.leftoverOf hdoubled hends hends
  have hreached : (fun rs => endsClause rs || (startsClause rs || blankWhere startsClause rs)) =
      fun rs => endsWhere rs || blankWhere startsClause rs := by
    funext rs
    rw [endsWhere, Bool.or_assoc]
  have hemptied : (fun rs => !startsClause rs && (endsClause rs ||
      (startsClause rs || blankWhere startsClause rs))) =
        fun rs => endsClause rs || blankWhere startsClause rs := by
    funext rs
    -- the next clause is neither an end nor a `WHERE`
    cases hclause : startsClause rs with
    | false => simp
    | true =>
      cases hwhere : blankWhere startsClause rs with
      | false => simp [endsClause_of_startsClause hclause]
      | true => cases (startsClause_of_blankWhere hwhere).symm.trans hclause
  rwa [hemptied, hreached] at hread

/-- What is left when no `WHERE` stands at an end any more. -/
theorem whereAtEnd_leftoverOf :
    whereAtEnd.Reads (leftoverOf startsConjunction
        (fun rs => endsClause rs || blankWhere startsClause rs)
        fun rs => endsWhere rs || blankWhere startsClause rs)
      (leftoverOf (conjunctionThen fun rs => !starts isWhere endsClause rs) (blankWhere endsWhere)
        fun rs => endsWhere rs || blankWhere endsWhere rs) := by
  have hdoubled : whereAtEnd.Reads startsConjunction
      (conjunctionThen fun rs => !starts isWhere endsClause rs) := by
    have hread := whereAtEnd_conjunctionThen (.const true)
    rw [startsConjunction_eq]
    simpa only [Bool.and_true] using hread
  have hblank : whereAtEnd.Reads (blankWhere startsClause) (blankWhere startsClause) := by
    have hread := whereAtEnd_removes.blankWhere whereAtEnd_startsClause
    have heq : (fun rs => !endsClause rs && startsClause rs) = startsClause := by
      funext rs
      cases hclause : startsClause rs with
      | false => simp
      | true => simp [endsClause_of_startsClause hclause]
    rwa [heq] at hread
  have hends := whereAtEnd_endsClause.or hblank
  have hreach := (whereAtEnd_endsClause.or whereAtEnd_startsClause).or hblank
  have hread := whereAtEnd_removes.leftoverOf hdoubled hends hreach
  have hwhere (rs : List Run) : blankWhere endsWhere rs =
      (blankWhere endsClause rs || blankWhere startsClause rs) :=
    blankWhere_or endsClause startsClause rs
  have hreached : (fun rs => endsClause rs || blankWhere endsClause rs || startsClause rs ||
      blankWhere startsClause rs) = fun rs => endsWhere rs || blankWhere endsWhere rs := by
    funext rs
    rw [endsWhere, hwhere]
    cases endsClause rs <;> cases startsClause rs <;> simp
  have hemptied : (fun rs => !endsClause rs && (endsClause rs || blankWhere endsClause rs ||
      blankWhere startsClause rs)) = blankWhere endsWhere := by
    funext rs
    cases hends : endsClause rs with
    | false => simp [hwhere]
    | true =>
      cases hnext : blankWhere endsWhere rs with
      | false => rfl
      | true => cases (endsClause_of_blankWhere hnext).symm.trans hends
  rwa [hemptied, hreached] at hread

/-- Whether runs start with a leftover that one pass does not take away: a `WHERE` in front of two
conjunctions, blanks and a `WHERE` in front of one that is without a condition, or a `SET` and a
comma in front of another comma or of such a `WHERE`. -/
def leftover : List Run → Bool :=
  leftoverOf
    (fun rs => conjunctionThen (fun rs => !starts isWhere (fun rs => endsClause (without rs)) rs)
      (without rs))
    (fun rs => blankWhere (fun rs => endsWhere (without rs)) (without rs))
    fun rs => endsWhere (without rs) || blankWhere (fun rs => endsWhere (without rs)) (without rs)

/-- What is left when no conjunction stands behind a `WHERE` any more. -/
theorem afterWhere_leftoverOf :
    afterWhere.Reads
      (leftoverOf (conjunctionThen fun rs => !starts isWhere endsClause rs) (blankWhere endsWhere)
        fun rs => endsWhere rs || blankWhere endsWhere rs) leftover := by
  have hset (r : Run) (hr : r.isSet = true) : r.name ≠ "WHERE" := by
    have hname : r.name = "SET" := by simpa [isSet] using hr
    simp [hname]
  have hcomma (r : Run) (hr : r.isComma = true) : r.name ≠ "WHERE" := by
    obtain rfl : r = piece (.live ',') := by simpa [isComma] using hr
    simp
  have hblank := afterWhere_blankWhere afterWhere_behind.endsWhere
  have hdoubled := afterWhere_behind.conjunctionThen
    (afterWhere_startsWhere afterWhere_behind.endsClause).not
  have hreached := afterWhere_startsWhere (afterWhere_behind.endsWhere.or hblank)
  have hcommas := afterWhere_behind.starts hcomma (.const true)
  have hnext : afterWhere.Reads commaNext commaNext :=
    hcommas.or (afterWhere_behind.blanks hcommas)
  exact ((afterWhere_startsWhere hdoubled).or (afterWhere_blankWhere hblank)).or
    (afterWhere_behind.starts hset (afterWhere_behind.blanks
      (afterWhere_behind.starts hcomma (hnext.or hreached))))

/-- Rules apply to runs that are tidied up exactly where leftovers were. -/
theorem occurs_tidied {rs : List Run} (hrs : Maximal rs) :
    occurs unsettled (tidied rs) = occurs leftover rs := by
  have h1 := (afterWhere_keepsMaximal.apply hrs).1
  have h2 := (whereAtEnd_keepsMaximal.apply h1).1
  have h3 := (whereBeforeClause_keepsMaximal.apply h2).1
  show occurs unsettled (afterSet.apply (whereBeforeClause.apply (whereAtEnd.apply
    (afterWhere.apply rs)))) = _
  have hconjunction (rs : List Run) (h : conjunctionThen (fun rs => !starts isWhere endsClause rs)
      rs = true) : startsConjunction rs = true := by
    rw [startsConjunction_eq]
    exact starts_mono (fun _ => starts_mono fun _ => starts_mono fun _ _ => rfl) h
  -- from the last rule back to the first one
  rw [occurs_afterSet h3,
    (leftoverOf_marks (fun _ => id) _ _).occurs_whereBeforeClause whereBeforeClause_leftoverOf h2,
    (leftoverOf_marks (fun _ => id) _ _).occurs_whereAtEnd whereAtEnd_leftoverOf h1,
    (leftoverOf_marks hconjunction _ _).occurs_afterWhere afterWhere_leftoverOf hrs]

end Run

/-! ## Settled runs -/

/-- Whether a rule applies where runs start. -/
def RunRule.found (rule : RunRule) : List Run → Bool
  | r :: rest => rule.applies r rest
  | [] => false

/-- A rule leaves fewer runs than it takes. -/
def RunRule.Shrinks (rule : RunRule) : Prop :=
  ∀ r rest, rule.applies r rest = true →
    (rule.change r (rule.apply rest)).length ≤ (rule.apply rest).length

namespace Run

theorem unsettled_eq (rs : List Run) : unsettled rs = rules.any fun rule => rule.found rs := by
  cases rs with
  | nil => rfl
  | cons r rest =>
    have hends : blankWhere endsWhere (r :: rest) =
        (whereAtEnd.found (r :: rest) || whereBeforeClause.found (r :: rest)) := by
      have hor := blankWhere_or endsClause startsClause (r :: rest)
      rw [blankWhere, blankWhere, starts_isWhere] at hor
      exact hor
    have hset : setComma (fun _ => true) (r :: rest) = afterSet.found (r :: rest) := by
      show _ = (r.name == "SET" && startsComma rest)
      rw [startsComma_eq]
      rfl
    have hwhere : starts isWhere startsConjunction (r :: rest) = afterWhere.found (r :: rest) := rfl
    simp [unsettled, hends, hset, hwhere, rules, Bool.or_assoc]

theorem occurs_any {α : Type} (p : α → List Run → Bool) (l : List α) (rs : List Run) :
    occurs (fun rs => l.any fun a => p a rs) rs = l.any fun a => occurs (p a) rs := by
  induction rs with
  | nil => simp [occurs]
  | cons r rest ih =>
    rw [occurs, ih, Bool.eq_iff_iff]
    simp only [Bool.or_eq_true, List.any_eq_true, occurs]
    constructor
    · rintro (⟨a, ha, h⟩ | ⟨a, ha, h⟩)
      · exact ⟨a, ha, .inl h⟩
      · exact ⟨a, ha, .inr h⟩
    · rintro ⟨a, ha, h | h⟩
      · exact .inl ⟨a, ha, h⟩
      · exact .inr ⟨a, ha, h⟩

theorem length_dropBlanks_le (rs : List Run) : (dropBlanks rs).length ≤ rs.length := by
  rcases rs with _ | ⟨⟨_ | _, b⟩ | p, rest⟩ <;> simp [dropBlanks]

theorem afterWhere_shrinks : afterWhere.Shrinks := by
  intro r rest happlies
  obtain ⟨w, b, c, d, behind, rfl, -, -, rfl, happly⟩ := afterWhere_cases happlies
  rw [happly]
  simp [afterWhere, dropConjunction]

theorem whereAtEnd_shrinks : whereAtEnd.Shrinks := by
  intro r rest _
  have hdrop := length_dropBlanks_le (whereAtEnd.apply rest).tail
  rw [List.length_tail] at hdrop
  show (dropBlanks (whereAtEnd.apply rest).tail).length ≤ _
  omega

theorem whereBeforeClause_shrinks : whereBeforeClause.Shrinks := by
  intro r rest happlies
  obtain ⟨b, w, d, next, front, behind, rfl, rfl, -, -, happly⟩ := whereBeforeClause_cases happlies
  rw [happly]
  simp [whereBeforeClause, dropBlanks]

theorem afterSet_shrinks : afterSet.Shrinks := by
  intro r rest happlies
  obtain ⟨w, b, behind, rfl, -, rfl, happly⟩ := afterSet_cases happlies
  have hdrop := length_dropBlanks_le (afterSet.apply behind)
  rw [happly]
  show (dropBlanks (afterSet.apply behind)).length + 2 ≤ (afterSet.apply behind).length + 2
  omega

theorem shrinks_of_mem_rules : ∀ rule ∈ rules, rule.Shrinks := by
  simp [rules, afterWhere_shrinks, whereAtEnd_shrinks, whereBeforeClause_shrinks, afterSet_shrinks]

end Run

theorem RunRule.Shrinks.length_apply {rule : RunRule} (h : rule.Shrinks) (rs : List Run) :
    (rule.apply rs).length + (occurs rule.found rs).toNat ≤ rs.length := by
  induction rs with
  | nil => exact Nat.le_refl 0
  | cons r rest ih =>
    cases happlies : rule.applies r rest with
    | false =>
      have hfound : occurs rule.found (r :: rest) = occurs rule.found rest := by
        rw [occurs, found, happlies, Bool.false_or]
      rw [apply_cons_of_not happlies, hfound, List.length_cons, List.length_cons]
      omega
    | true =>
      have hless := h r rest happlies
      have hone := (occurs rule.found (r :: rest)).toNat_le
      rw [apply_cons happlies, List.length_cons]
      omega

theorem RunRule.apply_of_not_occurs {rule : RunRule} {rs : List Run}
    (h : occurs rule.found rs = false) : rule.apply rs = rs := by
  induction rs with
  | nil => rfl
  | cons r rest ih =>
    obtain ⟨hnone, hrest⟩ := Bool.or_eq_false_iff.1 h
    rw [apply_cons_of_not hnone, ih hrest]

theorem length_foldl_apply_le {rules : List RunRule} (h : ∀ rule ∈ rules, rule.Shrinks)
    (rs : List Run) : (rules.foldl (fun rs rule => rule.apply rs) rs).length ≤ rs.length := by
  induction rules generalizing rs with
  | nil => exact Nat.le_refl _
  | cons rule rules ih =>
    obtain ⟨hrule, hrules⟩ := List.forall_mem_cons.1 h
    have hfirst := hrule.length_apply rs
    have hothers := ih hrules (rule.apply rs)
    rw [List.foldl_cons]
    omega

/-- Rules that shrink leave all runs exactly if none applies. -/
theorem not_occurs_of_length {rules : List RunRule} (h : ∀ rule ∈ rules, rule.Shrinks)
    {rs : List Run} (hlength : rs.length ≤ (rules.foldl (fun rs rule => rule.apply rs) rs).length) :
    ∀ rule ∈ rules, occurs rule.found rs = false := by
  induction rules with
  | nil => nofun
  | cons rule rules ih =>
    obtain ⟨hrule, hrules⟩ := List.forall_mem_cons.1 h
    have hfirst := hrule.length_apply rs
    have hothers := length_foldl_apply_le hrules (rule.apply rs)
    rw [List.foldl_cons] at hlength
    have hnone : occurs rule.found rs = false := by
      cases hoccurs : occurs rule.found rs with
      | false => rfl
      | true =>
        rw [hoccurs, Bool.toNat_true] at hfirst
        omega
    rw [RunRule.apply_of_not_occurs hnone] at hlength
    exact List.forall_mem_cons.2 ⟨hnone, ih hrules hlength⟩

theorem foldl_apply_of_not_occurs {rules : List RunRule} {rs : List Run}
    (h : ∀ rule ∈ rules, occurs rule.found rs = false) :
    rules.foldl (fun rs rule => rule.apply rs) rs = rs := by
  induction rules with
  | nil => rfl
  | cons rule rules ih =>
    obtain ⟨hrule, hrules⟩ := List.forall_mem_cons.1 h
    rw [List.foldl_cons, RunRule.apply_of_not_occurs hrule, ih hrules]

/-- Runs stay as they are exactly if no rule applies. -/
theorem tidied_eq_self_iff (rs : List Run) : tidied rs = rs ↔ occurs unsettled rs = false := by
  have hany : unsettled = fun rs => Run.rules.any fun rule => rule.found rs := funext unsettled_eq
  have hnone : occurs unsettled rs = false ↔ ∀ rule ∈ Run.rules, occurs rule.found rs = false := by
    rw [hany, occurs_any]
    simp
  rw [hnone]
  constructor
  · intro h
    refine not_occurs_of_length shrinks_of_mem_rules ?_
    rw [← tidied, h]
  · intro h
    exact foldl_apply_of_not_occurs h

end TwoWaySql.Clause
