import TwoWaySql.Evaluator
import TwoWaySql.Proofs.Reading

/-!
# How high accepted expressions are

The readers count how deep parentheses, negations, signs and argument lists nest, and refuse what
nests deeper than the limit. They do not count how often an operator is repeated in a chain, and
each repetition makes the tree higher. This file

1. defines the height of an expression and the length of its longest chain, and bounds the height by
   the nesting and the longest chain (`Expr.height_le`);
2. shows that what is read nests no deeper than the limit (`Expr.nesting_le_of_parseWithin`);
3. shows that a text is refused as too deep if more nesting is all that it needs
   (`Expr.parseWithin_mono`);
4. concludes that, chains apart, there is one bound on all accepted expressions
   (`Expr.height_limited`), and that there is none for chains (`Expr.not_exists_bound`).
-/

namespace TwoWaySql.Expr

/-! ## Heights -/

mutual

/-- The height of an expression, which is how deep a walk through it recurses. -/
def height : Expr → Nat
  | literal _ | path _ => 1
  | call _ arguments => heightOf arguments + 1
  | not e | neg e => height e + 1
  | and left right | or left right | compare _ left right => max (height left) (height right) + 1

/-- The height of the highest one of some expressions. -/
def heightOf : List Expr → Nat
  | [] => 0
  | e :: rest => max (height e) (heightOf rest)

end

/-- How many operators the chain of "or"s has that ends with the outermost operator. -/
def orRun : Expr → Nat
  | or left _ => orRun left + 1
  | _ => 0

/-- How many operators the chain of "and"s has that ends with the outermost operator. -/
def andRun : Expr → Nat
  | and left _ => andRun left + 1
  | _ => 0

mutual

/-- How many operators the longest chain of "or"s or of "and"s has: one at least, also where there
is no chain. -/
def longestChain : Expr → Nat
  | literal _ | path _ => 1
  | call _ arguments => longestChainOf arguments
  | not e | neg e => longestChain e
  | and left right => max (andRun left + 1) (max (longestChain left) (longestChain right))
  | or left right => max (orRun left + 1) (max (longestChain left) (longestChain right))
  | compare _ left right => max (longestChain left) (longestChain right)

def longestChainOf : List Expr → Nat
  | [] => 1
  | e :: rest => max (longestChain e) (longestChainOf rest)

end

theorem orRun_le (e : Expr) : e.orRun ≤ e.longestChain := by
  cases e with
  | or left right => exact Nat.le_max_left _ _
  | _ => exact Nat.zero_le _

theorem andRun_le (e : Expr) : e.andRun ≤ e.longestChain := by
  cases e with
  | and left right => exact Nat.le_max_left _ _
  | _ => exact Nat.zero_le _

/-- How much higher than its nesting accounts for an expression may be, if no chain has more than
`n` operators: an "or" may have a chain of "and"s below it, and each operand a comparison. -/
def excess (n : Nat) : Expr → Nat
  | or left _ => orRun left + 1 + (n + 2)
  | and left _ => andRun left + 1 + 2
  | not _ | compare _ _ _ => 2
  | neg _ | literal _ | path _ | call _ _ => 1

section Excess

variable {n : Nat} {e : Expr}

theorem excess_le_one (h : 4 ≤ e.place) : e.excess n ≤ 1 := by
  cases e <;> simp_all [place, excess]

theorem excess_le_two (h : 2 ≤ e.place) : e.excess n ≤ 2 := by
  cases e <;> simp_all [place, excess]

theorem excess_le_andRun (h : 1 ≤ e.place) : e.excess n ≤ e.andRun + 2 := by
  cases e <;> simp_all [place, excess, andRun]

theorem excess_le_chain (h : 1 ≤ e.place) (hchain : e.longestChain ≤ n) :
    e.excess n ≤ n + 2 :=
  (excess_le_andRun h).trans (Nat.add_le_add_right (e.andRun_le.trans hchain) 2)

theorem excess_le_orRun (hchain : e.longestChain ≤ n) : e.excess n ≤ e.orRun + (n + 2) := by
  cases e with
  | or left right => exact Nat.le_refl _
  | _ => exact (excess_le_chain (Nat.le_add_left 1 _) hchain).trans (Nat.le_add_left _ _)

theorem excess_le (hchain : e.longestChain ≤ n) : e.excess n ≤ n + (n + 2) :=
  (excess_le_orRun hchain).trans (Nat.add_le_add_right (e.orRun_le.trans hchain) _)

/-- The height of an operand, whose parentheses make up for what its place does not admit. -/
theorem height_le_nestingAt {needed room : Nat} (hn : 1 ≤ n) (hchain : e.longestChain ≤ n)
    (h : e.height ≤ 4 * n * e.nesting + e.excess n) (hroom : needed ≤ e.place → e.excess n ≤ room) :
    e.height ≤ 4 * n * e.nestingAt needed + room := by
  unfold nestingAt nestEnclosed
  split
  · -- the parentheses nest, and that is room enough for the excess of any expression
    have hexcess := excess_le hchain
    rw [Nat.mul_succ]
    omega
  · next hplace =>
    have hexcess := hroom (Nat.le_of_not_lt hplace)
    omega

end Excess

/-- Two operands are no higher than the one that nests deeper accounts for. -/
theorem max_height_le {k leftHeight rightHeight left right leftRoom rightRoom room : Nat}
    (hleft : leftHeight ≤ k * left + leftRoom) (hright : rightHeight ≤ k * right + rightRoom)
    (hl : leftRoom ≤ room) (hr : rightRoom ≤ room) :
    max leftHeight rightHeight ≤ k * max left right + room := by
  have hleft' : k * left ≤ k * max left right := Nat.mul_le_mul_left k (Nat.le_max_left _ _)
  have hright' : k * right ≤ k * max left right := Nat.mul_le_mul_left k (Nat.le_max_right _ _)
  omega

mutual

/-- An expression is no higher than its nesting and its longest chain account for. -/
theorem height_le_excess {n : Nat} (hn : 1 ≤ n) : ∀ e : Expr, e.longestChain ≤ n →
    e.height ≤ 4 * n * e.nesting + e.excess n
  | literal _, _ | path _, _ => Nat.le_add_left _ _
  | call name arguments, h => Nat.succ_le_succ (heightOf_le hn arguments h)
  | not e, h => by
    have hoperand := height_le_nestingAt (e := e) hn h (height_le_excess hn e h) excess_le_two
    have hnesting : (not e).nesting = e.nestingAt 2 + 1 := rfl
    rw [height, hnesting, excess, Nat.mul_succ]
    omega
  | neg e, h => by
    have hoperand := height_le_nestingAt (e := e) hn h (height_le_excess hn e h) excess_le_one
    have hnesting : (neg e).nesting = e.nestingAt 4 + 1 := rfl
    rw [height, hnesting, excess, Nat.mul_succ]
    omega
  | and left right, h => by
    obtain ⟨-, hl, hr⟩ : _ ∧ _ ∧ _ := by simpa only [longestChain, Nat.max_le] using h
    have hleft := height_le_nestingAt hn hl (height_le_excess hn left hl) excess_le_andRun
    have hright := height_le_nestingAt hn hr (height_le_excess hn right hr) excess_le_two
    exact Nat.succ_le_succ (max_height_le hleft hright (Nat.le_refl _) (Nat.le_add_left _ _))
  | or left right, h => by
    obtain ⟨-, hl, hr⟩ : _ ∧ _ ∧ _ := by simpa only [longestChain, Nat.max_le] using h
    have hleft := height_le_nestingAt hn hl (height_le_excess hn left hl)
      (fun _ : 0 ≤ left.place => excess_le_orRun hl)
    have hright := height_le_nestingAt hn hr (height_le_excess hn right hr)
      (fun hplace => excess_le_chain hplace hr)
    have hmax := max_height_le hleft hright (Nat.le_refl _) (Nat.le_add_left _ _)
    have hnesting : (or left right).nesting = max (left.nestingAt 0) (right.nestingAt 1) := rfl
    rw [height, hnesting, excess]
    omega
  | compare _ left right, h => by
    obtain ⟨hl, hr⟩ : _ ∧ _ := by simpa only [longestChain, Nat.max_le] using h
    have hleft := height_le_nestingAt hn hl (height_le_excess hn left hl) excess_le_one
    have hright := height_le_nestingAt hn hr (height_le_excess hn right hr) excess_le_one
    exact Nat.succ_le_succ (max_height_le hleft hright (Nat.le_refl _) (Nat.le_refl _))

theorem heightOf_le {n : Nat} (hn : 1 ≤ n) : ∀ arguments : List Expr,
    longestChainOf arguments ≤ n → heightOf arguments ≤ 4 * n * nestingOf arguments + 4 * n
  | [], _ => Nat.zero_le _
  | e :: rest, h => by
    obtain ⟨he, hrest⟩ : _ ∧ _ := by simpa only [longestChainOf, Nat.max_le] using h
    have hexcess : e.excess n ≤ 4 * n := by
      have hle := excess_le he
      omega
    exact max_height_le (height_le_excess hn e he) (heightOf_le hn rest hrest) hexcess
      (Nat.le_refl _)

end

mutual

theorem longestChain_pos : ∀ e : Expr, 1 ≤ e.longestChain
  | literal _ | path _ => Nat.le_refl 1
  | call _ arguments => longestChainOf_pos arguments
  | not e | neg e => longestChain_pos e
  | and _ _ | or _ _ => (Nat.le_add_left 1 _).trans (Nat.le_max_left _ _)
  | compare _ left _ => (longestChain_pos left).trans (Nat.le_max_left _ _)

theorem longestChainOf_pos : ∀ arguments : List Expr, 1 ≤ longestChainOf arguments
  | [] => Nat.le_refl 1
  | e :: _ => (longestChain_pos e).trans (Nat.le_max_left _ _)

end

/-- The height of an expression is bounded by its nesting and its longest chain. -/
theorem height_le (e : Expr) : e.height ≤ 4 * (e.nesting + 1) * e.longestChain := by
  have hpos := e.longestChain_pos
  have hheight := height_le_excess hpos e (Nat.le_refl _)
  have hexcess := excess_le (Nat.le_refl e.longestChain)
  calc e.height ≤ 4 * e.longestChain * e.nesting + 4 * e.longestChain := by omega
    _ = 4 * (e.nesting + 1) * e.longestChain := by
      rw [← Nat.mul_succ, Nat.mul_assoc, Nat.mul_assoc, Nat.mul_comm e.longestChain]

/-! ## What is read nests within the limit -/

/-- Whatever the reader reads has the property. -/
def Yields {α : Type} (read : Reader α) (P : α → Prop) : Prop :=
  ∀ ⦃s : List Char⦄ ⦃a : α⦄ ⦃rest : List Char⦄, read s = .ok (a, rest) → P a

/-- The readers read nothing that nests as deep as the bound. -/
structure Level.Below (level : Level) (bound : Nat) : Prop where
  disjunction : Yields level.disjunction fun e => e.nesting < bound
  negation : Yields level.negation fun e => e.nestingAt 2 < bound
  unary : Yields level.unary fun e => e.nestingAt 4 < bound
  arguments : Yields level.arguments fun es => nestingOf es < bound

theorem nesting_le_nestingAt (e : Expr) (needed : Nat) : e.nesting ≤ e.nestingAt needed := by
  unfold nestingAt nestEnclosed
  split <;> omega

theorem nestingAt_mono {e : Expr} {weak strong : Nat} (h : weak ≤ strong) :
    e.nestingAt weak ≤ e.nestingAt strong := by
  unfold nestingAt nestEnclosed
  split <;> split <;> omega

theorem nestingAt_le_succ (e : Expr) (needed : Nat) : e.nestingAt needed ≤ e.nesting + 1 := by
  unfold nestingAt nestEnclosed
  split <;> omega

/-- What a reader yields when its result is changed by a function. -/
theorem of_map_ok {α β : Type} {f : α → β} {result : Except ExprFault (α × List Char)} {b : β}
    {rest : List Char} (h : (result.map fun p => (f p.1, p.2)) = .ok (b, rest)) :
    ∃ a, result = .ok (a, rest) ∧ f a = b := by
  cases result with
  | error fault => cases h
  | ok p =>
    cases h
    exact ⟨p.1, rfl, rfl⟩

theorem yields_number {n : Nat} : Yields number fun e => e.nestingAt 5 ≤ n := by
  intro s e rest h
  have hinteger {digits after : List Char} (h : number.integer digits after = .ok (e, rest)) :
      e.nestingAt 5 ≤ n := by
    unfold number.integer at h
    dsimp only at h
    split at h <;> cases h
    exact Nat.zero_le n
  unfold number at h
  dsimp only at h
  split at h
  · split at h
    · exact hinteger h
    · cases h
      exact Nat.zero_le n
  · exact hinteger h

section Below

variable {deeper : Level} {n : Nat} (below : deeper.Below n)

include below

theorem yields_word : Yields (word deeper) fun e => e.nestingAt 5 ≤ n := by
  intro s e rest h
  unfold word at h
  dsimp only at h
  split at h
  · cases h
    exact Nat.zero_le n
  · cases h
    exact Nat.zero_le n
  · cases h
    exact Nat.zero_le n
  · split at h
    · obtain ⟨es, hread, rfl⟩ := of_map_ok h
      exact below.arguments hread
    · cases h
      exact Nat.zero_le n

theorem yields_primary : Yields (primary deeper) fun e => e.nestingAt 5 ≤ n := by
  intro s e rest h
  unfold primary at h
  split at h
  · cases h
  · split at h
    · split at h
      · cases h
      · next e' rest' hread =>
        split at h <;> cases h
        -- an operand that needs no parentheses may stand in some
        exact (nestingAt_le_succ e 5).trans (below.disjunction hread)
    · split at h
      · split at h <;> cases h
        exact Nat.zero_le n
      · split at h
        · exact yields_number h
        · split at h
          · exact yields_word below h
          · cases h

theorem yields_unary : Yields (unary deeper) fun e => e.nestingAt 4 ≤ n := by
  intro s e rest h
  unfold unary at h
  split at h
  · obtain ⟨e, hread, rfl⟩ := of_map_ok h
    exact below.unary hread
  · exact (nestingAt_mono (by decide)).trans (yields_primary below h)

theorem yields_comparison : Yields (comparison deeper) fun e => e.nestingAt 3 ≤ n := by
  intro s e rest h
  unfold comparison at h
  split at h
  · cases h
  · next left rest' hleft =>
    have hle := yields_unary below hleft
    dsimp only at h
    split at h
    · cases h
      exact (nestingAt_mono (by decide)).trans hle
    · obtain ⟨right, hright, rfl⟩ := of_map_ok h
      exact Nat.max_le.2 ⟨hle, yields_unary below hright⟩

theorem yields_negation : Yields (negation deeper) fun e => e.nestingAt 2 ≤ n := by
  intro s e rest h
  unfold negation at h
  dsimp only at h
  split at h
  · cases h
  · obtain ⟨e, hread, rfl⟩ := of_map_ok h
    exact below.negation hread
  · split at h
    · obtain ⟨e, hread, rfl⟩ := of_map_ok h
      exact below.negation hread
    · exact (nestingAt_mono (by decide)).trans (yields_comparison below h)

end Below

/-- A chain has a property that its first operand has and each further operand keeps. -/
theorem yields_chained {operand : Reader Expr} {find : List Char → Option (List Char)}
    {combine : Expr → Expr → Expr} {P Q : Expr → Prop} (hoperand : Yields operand P)
    (hfirst : ∀ e, P e → Q e) (hmore : ∀ left right, Q left → P right → Q (combine left right)) :
    Yields (chained operand find combine) Q := by
  -- what has been read so far has the property, whichever operator comes next
  have hchain : ∀ (steps : Nat) (left : Expr), Q left →
      Yields (chain operand find combine steps left) Q := by
    intro steps
    induction steps with
    | zero =>
      intro left hleft s e rest h
      cases h
      exact hleft
    | succ steps ih =>
      intro left hleft s e rest h
      unfold chain at h
      dsimp only at h
      split at h
      · cases h
        exact hleft
      · split at h
        · cases h
        · next right rest' hright =>
          exact ih _ (hmore left right hleft (hoperand hright)) h
  intro s e rest h
  unfold chained at h
  split at h
  · cases h
  · next left rest' hleft => exact hchain _ left (hfirst left (hoperand hleft)) h

section Below

variable {deeper : Level} {n : Nat} (below : deeper.Below n)

include below

theorem yields_conjunction : Yields (conjunction deeper) fun e => e.nestingAt 1 ≤ n :=
  yields_chained (yields_negation below) (fun _ h => (nestingAt_mono (by decide)).trans h)
    (fun _ _ hleft hright => Nat.max_le.2 ⟨hleft, hright⟩)

theorem yields_disjunction : Yields (disjunction deeper) fun e => e.nesting ≤ n :=
  yields_chained (yields_conjunction below) (fun e h => (e.nesting_le_nestingAt 1).trans h)
    (fun _ _ hleft hright => Nat.max_le.2 ⟨hleft, hright⟩)

theorem yields_someArguments : ∀ steps : Nat,
    Yields (someArguments deeper steps) fun es => nestingOf es ≤ n
  | 0, _, _, _, h => by cases h
  | steps + 1, s, es, rest, h => by
    unfold someArguments at h
    split at h
    · cases h
    · next e rest' hread =>
      have hle := yields_disjunction below hread
      split at h
      · obtain ⟨es, hothers, rfl⟩ := of_map_ok h
        exact Nat.max_le.2 ⟨hle, yields_someArguments steps hothers⟩
      · cases h
        exact Nat.max_le.2 ⟨hle, Nat.zero_le n⟩
      · cases h

theorem yields_arguments : Yields (arguments deeper) fun es => nestingOf es ≤ n := by
  intro s es rest h
  unfold arguments at h
  split at h
  · cases h
    exact Nat.zero_le n
  · exact yields_someArguments below _ h

end Below

/-- What a level reads nests less deep than the level has levels. -/
theorem below_atDepth (n : Nat) : (Level.atDepth n).Below n := by
  induction n with
  | zero => exact ⟨nofun, nofun, nofun, nofun⟩
  | succ n ih =>
    exact {
      disjunction := fun _ _ _ h => Nat.lt_succ_of_le (yields_disjunction ih h)
      negation := fun _ _ _ h => Nat.lt_succ_of_le (yields_negation ih h)
      unary := fun _ _ _ h => Nat.lt_succ_of_le (yields_unary ih h)
      arguments := fun _ _ _ h => Nat.lt_succ_of_le (yields_arguments ih h) }

/-- The expression that a text is, if as many levels may be nested as the limit says. -/
def parseWithin (limit : Nat) (source : String) : Except ExprFault Expr :=
  match (Level.atDepth (limit + 1)).disjunction source.toList with
  | .error fault => .error fault
  | .ok (e, rest) =>
    match Text.trimStart rest with
    | [] => .ok e
    | rest => .error (.expected "end of expression" rest)

theorem parseWithin_maxNesting (source : String) : parseWithin maxNesting source = parse source :=
  rfl

theorem nesting_le_of_parseWithin {limit : Nat} {source : String} {e : Expr}
    (h : parseWithin limit source = .ok e) : e.nesting ≤ limit := by
  unfold parseWithin at h
  split at h
  · cases h
  · next e' rest hread =>
    split at h <;> cases h
    exact yields_disjunction (below_atDepth limit) hread

/-! ## More levels read the same, and more -/

/-- The result of a reader is that of another one, or a refusal because something nests too deep. -/
def Cut {α : Type} (result other : Except ExprFault α) : Prop :=
  result = other ∨ ∃ rest, result = .error (.tooDeep rest)

theorem Cut.refl {α : Type} (result : Except ExprFault α) : Cut result result := .inl rfl

theorem Cut.map {α β : Type} {result other : Except ExprFault α} (h : Cut result other)
    (f : α → β) : Cut (result.map f) (other.map f) := by
  rcases h with rfl | ⟨rest, rfl⟩
  · exact .refl _
  · exact .inr ⟨rest, rfl⟩

/-- Each reader of one level reads what that of another level reads, or refuses it as too deep. -/
structure Level.CutOf (level other : Level) : Prop where
  disjunction : ∀ s, Cut (level.disjunction s) (other.disjunction s)
  negation : ∀ s, Cut (level.negation s) (other.negation s)
  unary : ∀ s, Cut (level.unary s) (other.unary s)
  arguments : ∀ s, Cut (level.arguments s) (other.arguments s)

section CutOf

variable {deeper other : Level} (cut : deeper.CutOf other)

include cut

theorem cut_word (s : List Char) : Cut (word deeper s) (word other s) := by
  unfold word
  dsimp only
  split
  · exact .refl _
  · exact .refl _
  · exact .refl _
  · split
    · exact (cut.arguments _).map _
    · exact .refl _

theorem cut_primary (s : List Char) : Cut (primary deeper s) (primary other s) := by
  unfold primary
  split
  · exact .refl _
  · next c rest _ =>
    split
    · rcases cut.disjunction rest with heq | ⟨behind, hrefused⟩
      · rw [heq]
        exact .refl _
      · rw [hrefused]
        exact .inr ⟨behind, rfl⟩
    · split
      · exact .refl _
      · split
        · exact .refl _
        · split
          · exact cut_word cut _
          · exact .refl _

theorem cut_unary (s : List Char) : Cut (unary deeper s) (unary other s) := by
  unfold unary
  split
  · exact (cut.unary _).map _
  · exact cut_primary cut _

theorem cut_comparison (s : List Char) : Cut (comparison deeper s) (comparison other s) := by
  unfold comparison
  rcases cut_unary cut s with heq | ⟨behind, hrefused⟩
  · rw [heq]
    split
    · exact .refl _
    · dsimp only
      split
      · exact .refl _
      · exact (cut_unary cut _).map _
  · rw [hrefused]
    exact .inr ⟨behind, rfl⟩

theorem cut_negation (s : List Char) : Cut (negation deeper s) (negation other s) := by
  unfold negation
  dsimp only
  split
  · exact .refl _
  · exact (cut.negation _).map _
  · split
    · exact (cut.negation _).map _
    · exact cut_comparison cut _

end CutOf

theorem cut_chained {operand operand' : Reader Expr} (find : List Char → Option (List Char))
    (combine : Expr → Expr → Expr) (h : ∀ s, Cut (operand s) (operand' s)) (s : List Char) :
    Cut (chained operand find combine s) (chained operand' find combine s) := by
  have hchain : ∀ (steps : Nat) (left : Expr) (s : List Char),
      Cut (chain operand find combine steps left s) (chain operand' find combine steps left s) := by
    intro steps
    induction steps with
    | zero =>
      intro left s
      exact .refl _
    | succ steps ih =>
      intro left s
      unfold chain
      dsimp only
      split
      · exact .refl _
      · next after _ =>
        rcases h after with heq | ⟨behind, hrefused⟩
        · rw [heq]
          split
          · exact .refl _
          · exact ih _ _
        · rw [hrefused]
          exact .inr ⟨behind, rfl⟩
  unfold chained
  rcases h s with heq | ⟨behind, hrefused⟩
  · rw [heq]
    split
    · exact .refl _
    · exact hchain _ _ _
  · rw [hrefused]
    exact .inr ⟨behind, rfl⟩

section CutOf

variable {deeper other : Level} (cut : deeper.CutOf other)

include cut

theorem cut_disjunction (s : List Char) : Cut (disjunction deeper s) (disjunction other s) :=
  cut_chained afterOr? or (cut_chained afterAnd? and (cut_negation cut)) s

theorem cut_someArguments (steps : Nat) : ∀ s : List Char,
    Cut (someArguments deeper steps s) (someArguments other steps s) := by
  induction steps with
  | zero =>
    intro s
    exact .refl _
  | succ steps ih =>
    intro s
    unfold someArguments
    rcases cut_disjunction cut s with heq | ⟨behind, hrefused⟩
    · rw [heq]
      split
      · exact .refl _
      · split
        · exact (ih _).map _
        · exact .refl _
        · exact .refl _
    · rw [hrefused]
      exact .inr ⟨behind, rfl⟩

theorem cut_arguments (s : List Char) : Cut (arguments deeper s) (arguments other s) := by
  unfold arguments
  split
  · exact .refl _
  · exact cut_someArguments cut _ _

end CutOf

theorem cutOf_atDepth {n m : Nat} (h : n ≤ m) : (Level.atDepth n).CutOf (Level.atDepth m) := by
  induction n generalizing m with
  | zero =>
    -- a level that refuses everything is cut from any other one
    have hrefused {α : Type} (rest : List Char) (other : Except ExprFault α) :
        Cut (.error (.tooDeep rest)) other := .inr ⟨rest, rfl⟩
    exact ⟨fun _ => hrefused _ _, fun _ => hrefused _ _, fun _ => hrefused _ _,
      fun _ => hrefused _ _⟩
  | succ n ih =>
    obtain ⟨m, rfl⟩ := Nat.exists_eq_add_of_le' (Nat.one_le_of_lt h)
    have cut := ih (Nat.le_of_succ_le_succ h)
    exact ⟨cut_disjunction cut, cut_negation cut, cut_unary cut, cut_arguments cut⟩

/-- A lower limit changes nothing but that it refuses some texts as too deep. -/
theorem parseWithin_mono {limit higher : Nat} (h : limit ≤ higher) (source : String) :
    Cut (parseWithin limit source) (parseWithin higher source) := by
  unfold parseWithin
  rcases (cutOf_atDepth (Nat.succ_le_succ h)).disjunction source.toList with
    heq | ⟨behind, hrefused⟩
  · rw [heq]
    exact .refl _
  · rw [hrefused]
    exact .inr ⟨behind, rfl⟩

/-- What is an expression under some limit is the same one under the limit that holds, or nests
deeper than that and is refused for it. -/
theorem parse_of_parseWithin {limit : Nat} {source : String} {e : Expr}
    (h : parseWithin limit source = .ok e) :
    parse source = .ok e ∨ ∃ rest, parse source = .error (.tooDeep rest) := by
  rw [← parseWithin_maxNesting]
  -- a lower limit that does not refuse the text agrees; a higher one may be cut
  rcases Nat.le_total limit maxNesting with hle | hle
  · rcases parseWithin_mono hle source with heq | ⟨rest, hrefused⟩
    · exact .inl (heq ▸ h)
    · rw [h] at hrefused
      cases hrefused
  · rcases parseWithin_mono hle source with heq | hrefused
    · exact .inl (heq.trans h)
    · exact .inr hrefused

/-- A text that is no expression is an error of every condition, with the fault in words. -/
theorem evaluate_refused {source : String} {fault : ExprFault} (h : parse source = .error fault)
    (functions : Functions) (l : Lookup) :
    (Evaluator.ofFunctions functions).evaluate source l =
      .error (.evaluation source (fault.message source)) := by
  rw [Evaluator.ofFunctions]
  dsimp only
  rw [h]

/-! ## Written expressions -/

/-- The first spelling of an expression is read as that expression under each limit that its
nesting is within. -/
theorem parseWithin_spell {limit : Nat} {e : Expr} (hplain : e.isPlain = true)
    (h : e.nesting ≤ limit) : parseWithin limit (String.ofList (spell e.symbols)) = .ok e := by
  have hspelled : Spelled (e.symbols ++ []) (spell e.symbols) := by
    rw [List.append_nil]
    exact spelled_spell_symbols hplain
  cases (readable e hplain).whole.1 limit [] _ nofun hspelled with
  | fits _ rest others read =>
    have hdisjunction : (Level.atDepth (limit + 1)).disjunction =
        Expr.disjunction (.atDepth limit) := rfl
    simp only [parseWithin, String.toList_ofList, hdisjunction, read, others.trimStart_nil]
  | tooDeep full => exact absurd full (Nat.not_lt.2 h)

/-- One path with as many more "or"s behind it as the number says. -/
def orChain : Nat → Expr
  | 0 => path "x"
  | n + 1 => or (orChain n) (path "x")

theorem isPlain_orChain (n : Nat) : (orChain n).isPlain = true := by
  induction n with
  | zero => decide
  | succ n ih =>
    rw [orChain, isPlain, ih]
    decide

theorem nesting_orChain (n : Nat) : (orChain n).nesting = 0 := by
  induction n with
  | zero => rfl
  | succ n ih => exact Nat.max_eq_zero_iff.2 ⟨ih, rfl⟩

theorem height_orChain (n : Nat) : (orChain n).height = n + 1 := by
  induction n with
  | zero => rfl
  | succ n ih =>
    rw [orChain, height, ih, height]
    omega

/-- No bound holds of all accepted expressions: a chain makes the tree as high as it is long. -/
theorem not_exists_bound :
    ¬ ∃ bound : Nat, ∀ (source : String) (e : Expr), parse source = .ok e → e.height ≤ bound := by
  rintro ⟨bound, hbound⟩
  have hnesting : (orChain bound).nesting ≤ maxNesting :=
    (nesting_orChain bound).trans_le (Nat.zero_le _)
  have hheight := hbound _ _ (parseWithin_spell (isPlain_orChain bound) hnesting)
  rw [height_orChain] at hheight
  exact Nat.not_succ_le_self bound hheight

/-- Chains apart, all accepted expressions are within one bound: the height is at most 260 times the
length of the longest chain. What would be an expression under some limit and is not accepted is
refused because it nests too deep, and the stock evaluator reports that. -/
theorem height_limited :
    (∀ (source : String) (e : Expr), parse source = .ok e →
      e.nesting ≤ maxNesting ∧ e.height ≤ 4 * (maxNesting + 1) * e.longestChain) ∧
    ∀ (limit : Nat) (source : String) (e : Expr), parseWithin limit source = .ok e →
      parse source = .ok e ∨
        ∃ position : Nat, ∀ (functions : Functions) (l : Lookup),
          (Evaluator.stock functions).evaluate source l = .error (.evaluation source
            s!"expression nested deeper than {maxNesting} levels at position {position}") := by
  refine ⟨fun source e h => ?_, fun limit source e h => ?_⟩
  · rw [← parseWithin_maxNesting] at h
    have hnesting := nesting_le_of_parseWithin h
    refine ⟨hnesting, ?_⟩
    calc e.height ≤ 4 * (e.nesting + 1) * e.longestChain := e.height_le
      _ ≤ 4 * (maxNesting + 1) * e.longestChain :=
        Nat.mul_le_mul_right _ (Nat.mul_le_mul_left 4 (Nat.succ_le_succ hnesting))
  · rcases parse_of_parseWithin h with haccepted | ⟨rest, hrefused⟩
    · exact .inl haccepted
    · refine .inr ⟨offsetOf source rest, fun functions l => ?_⟩
      exact evaluate_refused hrefused _ l

/-- A chain of three "or"s is within the bound, and one negation too many is refused. -/
theorem height_limited_negations :
    let spelled (e : Expr) : String := String.ofList (spell e.symbols)
    let deep : Expr := Nat.repeat not (maxNesting + 1) (path "x")
    parse (spelled (orChain 3)) = .ok (orChain 3) ∧
      (orChain 3).height ≤ 4 * (maxNesting + 1) * (orChain 3).longestChain ∧
      parseWithin (maxNesting + 1) (spelled deep) = .ok deep ∧
      ¬ deep.nesting ≤ maxNesting ∧
      ∃ position : Nat, (Evaluator.stock []).evaluate (spelled deep) Parameters.empty.lookup =
        .error (.evaluation (spelled deep)
          s!"expression nested deeper than {maxNesting} levels at position {position}") := by
  intro spelled deep
  have hchain : parse (spelled (orChain 3)) = .ok (orChain 3) := by
    rw [← parseWithin_maxNesting]
    exact parseWithin_spell (isPlain_orChain 3) (by decide)
  have hdeep : parseWithin (maxNesting + 1) (spelled deep) = .ok deep :=
    parseWithin_spell (by decide +kernel) (by decide +kernel)
  have hnesting : ¬ deep.nesting ≤ maxNesting := by decide +kernel
  refine ⟨hchain, (height_limited.1 _ _ hchain).2, hdeep, hnesting, ?_⟩
  rcases height_limited.2 _ _ _ hdeep with haccepted | ⟨position, hrefused⟩
  · exact absurd (height_limited.1 _ _ haccepted).1 hnesting
  · exact ⟨position, hrefused [] _⟩

end TwoWaySql.Expr
