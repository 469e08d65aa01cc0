import TwoWaySql.Proofs.Spelling

/-!
# Reading written expressions

The readers read an expression back from every text that spells its symbols, and refuse the text if
it nests too deep. This file

1. says what a reader sees in front of an expression and behind it;
2. says what it means that symbols are read as an expression of a place, whatever may follow them
   (`ReadsAt`), and shows that a strong place is as good as a weaker one (`ReadsAt.mono`) and that
   parentheses make an operand of anything (`reads_parentheses`);
3. shows for each constructor that its symbols are read in its own place, from what its parts are
   read as, and puts these together by induction over the expression (`readable`).

A reader of operators that chain takes the operands one by one, and the tree it builds leans to the
left, so the induction carries how far the reader has got behind an operand (`Operator.Leads`).
-/

namespace TwoWaySql.Expr

/-! ## What a reader sees -/

section Seen

variable {place : Nat} {symbols : List Symbol} {s : List Char}

theorem Follows.head?_ne (h : Follows place symbols) (hs : Spelled symbols s) {c : Char}
    (hc : ¬ (Text.isBlank c = true ∨ c ∈ [')', ',', '|', 'o', '&', 'a', '=', '!', '<', '>'])) :
    s.head? ≠ some c := by
  rintro hhead
  cases hs with
  | nil blank => exact hc (.inl (blank c (List.mem_of_head? hhead)))
  | @cons symbol symbols blanks word rest blank spelling apart others =>
    obtain ⟨d, more, heq, hd⟩ := (Spelled.cons blank spelling apart others).head
    obtain rfl : d = c := by simpa [heq] using hhead
    rcases hd with hblank | ⟨more, hword⟩
    · exact hc (.inl hblank)
    · exact hc (.inr (Symbol.head_of_follows (h symbol rfl) hword))

theorem Starts.head?_ne (h : Starts place symbols) (hs : Spelled symbols s) {c : Char}
    (hc : ¬ (Text.isBlank c = true ∨ Name.isPart c = true ∨ c ∈ ['\'', '"', '('] ∨
      c = '-' ∧ place ≤ 4 ∨ c = '!' ∧ place ≤ 2)) :
    s.head? ≠ some c := by
  rintro hhead
  obtain ⟨symbol, others, rfl, hstarts⟩ := h
  obtain ⟨d, more, rfl, hd⟩ := hs.head
  obtain rfl := Option.some.inj hhead
  rcases hd with hblank | ⟨more, hword⟩
  · exact hc (.inl hblank)
  · exact hc (.inr (Symbol.head_of_starts hstarts hword))

/-- No word runs into a name character. -/
theorem afterWord?_apart {word rest : List Char} (hword : word.head?.any Name.isStart = true)
    (h : Apart word rest) : afterWord? word (word ++ rest) = some rest := by
  have hafter : Text.after? word (word ++ rest) = some rest := Text.after?_eq_some_iff.2 rfl
  have hinner : rest.head?.any Name.isInner = false := by
    have hpart := h hword
    cases rest with
    | nil => rfl
    | cons c rest =>
      have hc : Name.isPart c = false := hpart
      rw [Name.isPart, Bool.or_eq_false_iff] at hc
      exact hc.1
  rw [afterWord?, hafter]
  simp only [hinner, Bool.false_eq_true, if_false]

/-- An operator is found in both of its spellings, a mark and a word. -/
theorem Spelled.operator {symbol : Symbol} {mark word : List Char}
    {find : List Char → Option (List Char)} (h : Spelled (symbol :: symbols) s)
    (hspellings : symbol.spellings = [mark, word]) (hstart : word.head?.any Name.isStart = true)
    (hmark : ∀ rest, find (mark ++ rest) = some rest)
    (hword : ∀ rest, find (word ++ rest) = afterWord? word (word ++ rest)) :
    ∃ rest, find (Text.trimStart s) = some rest ∧ Spelled symbols rest := by
  obtain ⟨spelling, rest, hspelling, htrim, hapart, hrest⟩ := h.trimStart_cons
  refine ⟨rest, ?_, hrest⟩
  rw [hspellings] at hspelling
  rw [htrim]
  rcases List.mem_cons.1 hspelling with rfl | hmem
  · exact hmark rest
  · obtain rfl := List.mem_singleton.1 hmem
    rw [hword, afterWord?_apart hstart hapart]

theorem afterOr?_some (h : Spelled (.disjunct :: symbols) s) :
    ∃ rest, afterOr? (Text.trimStart s) = some rest ∧ Spelled symbols rest :=
  h.operator rfl rfl (fun _ => rfl) (fun _ => rfl)

theorem afterAnd?_some (h : Spelled (.conjunct :: symbols) s) :
    ∃ rest, afterAnd? (Text.trimStart s) = some rest ∧ Spelled symbols rest :=
  h.operator rfl rfl (fun _ => rfl) (fun _ => rfl)

theorem comparison?_some {op : Comparison} (h : Spelled (.compare op :: symbols) s)
    (hstarts : Starts 4 symbols) :
    ∃ rest, comparison? (Text.trimStart s) = some (op, rest) ∧ Spelled symbols rest := by
  obtain ⟨word, rest, hword, htrim, -, hrest⟩ := h.trimStart_cons
  have hequal : rest.head? ≠ some '=' := hstarts.head?_ne hrest (by decide)
  refine ⟨rest, ?_, hrest⟩
  rw [htrim, List.mem_singleton.1 hword]
  cases op with
  | lt | gt =>
    -- the operator with an equals sign is another one
    show comparison? (_ :: rest) = _
    unfold comparison?
    split <;> simp_all
  | _ => rfl

/-- What a reader of operators does not find at the start of any symbol that may follow, it does not
find behind an expression. -/
theorem Follows.none {α : Type} {find : List Char → Option α} (h : Follows place symbols)
    (hs : Spelled symbols s) (hnil : find [] = none)
    (hfind : ∀ symbol : Symbol, symbol.follows place = true → ∀ word ∈ symbol.spellings,
      ∀ rest, find (word ++ rest) = none) :
    find (Text.trimStart s) = none := by
  cases symbols with
  | nil => rw [hs.trimStart_nil, hnil]
  | cons symbol symbols =>
    obtain ⟨word, rest, hword, htrim, -, -⟩ := hs.trimStart_cons
    rw [htrim]
    exact hfind symbol (h symbol rfl) word hword rest

theorem afterOr?_none (h : Follows 0 symbols) (hs : Spelled symbols s) :
    afterOr? (Text.trimStart s) = none := by
  refine h.none hs rfl ?_
  intro symbol hfollows word hword rest
  cases symbol with
  | closing | comma =>
    obtain rfl := List.mem_singleton.1 hword
    rfl
  | _ => cases hfollows

theorem afterAnd?_none (h : Follows 1 symbols) (hs : Spelled symbols s) :
    afterAnd? (Text.trimStart s) = none := by
  refine h.none hs rfl ?_
  intro symbol hfollows word hword rest
  cases symbol with
  | closing | comma =>
    obtain rfl := List.mem_singleton.1 hword
    rfl
  | disjunct =>
    rcases List.mem_cons.1 hword with rfl | hmem
    · rfl
    · obtain rfl := List.mem_singleton.1 hmem
      rfl
  | _ => cases hfollows

theorem comparison?_none (h : Follows 3 symbols) (hs : Spelled symbols s) :
    comparison? (Text.trimStart s) = none := by
  refine h.none hs rfl ?_
  intro symbol hfollows word hword rest
  cases symbol with
  | closing | comma =>
    obtain rfl := List.mem_singleton.1 hword
    rfl
  | disjunct | conjunct =>
    rcases List.mem_cons.1 hword with rfl | hmem
    · rfl
    · obtain rfl := List.mem_singleton.1 hmem
      rfl
  | _ => cases hfollows

/-- A run of characters of one kind is taken whole, if it does not run on. -/
theorem takeWhile_run {kind : Char → Bool} {run rest : List Char}
    (hrun : ∀ c ∈ run, kind c = true) (hstop : rest.head?.any kind = false) :
    (run ++ rest).takeWhile kind = run ∧ (run ++ rest).dropWhile kind = rest := by
  have hrest : rest.takeWhile kind = [] ∧ rest.dropWhile kind = rest := by
    cases rest with
    | nil => exact ⟨rfl, rfl⟩
    | cons c rest =>
      have hc : kind c = false := hstop
      rw [List.takeWhile_cons, List.dropWhile_cons, hc]
      exact ⟨rfl, rfl⟩
  rw [List.takeWhile_append_of_pos hrun, List.dropWhile_append_of_pos hrun, hrest.1, hrest.2]
  exact ⟨List.append_nil _, rfl⟩

theorem takeWhile_name {name rest : List Char} (hvalid : Name.isValid name = true)
    (h : Apart name rest) :
    (name ++ rest).takeWhile Name.isPart = name ∧ (name ++ rest).dropWhile Name.isPart = rest := by
  obtain ⟨c, more, rfl, hc⟩ := Name.exists_cons_of_isValid hvalid
  exact takeWhile_run (Name.isPart_of_isValid hvalid) (h hc)

/-- A name that is not the word itself goes on with a character that the word may not have behind
it, or with a dot. -/
theorem afterNot?_name {name rest : List Char} (hvalid : Name.isValid name = true)
    (hword : name ≠ ['n', 'o', 't']) (hdot : ['n', 'o', 't', '.'].isPrefixOf name = false)
    (h : Apart name rest) : afterWord? ['n', 'o', 't'] (name ++ rest) = none := by
  unfold afterWord?
  split
  · rfl
  · next after hafter =>
    have heq := Text.after?_eq_some_iff.1 hafter
    have hname : name = ['n', 'o', 't'] ++ after.takeWhile Name.isPart := by
      rw [← (takeWhile_name hvalid h).1, heq]
      exact List.takeWhile_append_of_pos (List.all_eq_true.1 rfl)
    have hinner : after.head?.any Name.isInner = true := by
      cases after with
      | nil => exact absurd hname hword
      | cons c after =>
        rw [List.takeWhile_cons] at hname
        split at hname
        · next hpart =>
          rw [Name.isPart, Bool.or_eq_true] at hpart
          rcases hpart with hinner | hpoint
          · exact hinner
          · rw [hname, beq_iff_eq.1 hpoint] at hdot
            cases hdot
        · exact absurd hname hword
    exact if_pos hinner

/-- An expression that is no negation does not start with the word for one. -/
theorem afterNot?_none (h : Starts 3 symbols) (hs : Spelled symbols s) :
    afterWord? ['n', 'o', 't'] (Text.trimStart s) = none := by
  obtain ⟨symbol, others, rfl, hstarts⟩ := h
  obtain ⟨word, rest, hword, htrim, hapart, -⟩ := hs.trimStart_cons
  rw [htrim]
  cases symbol with
  | name name =>
    obtain ⟨hvalid, rfl⟩ := Symbol.spelling_name hword
    simp only [Symbol.starts, Bool.and_eq_true, bne_iff_ne, Bool.not_eq_true'] at hstarts
    refine afterNot?_name hvalid ?_ hstarts.2 hapart
    intro heq
    exact hstarts.1 (String.toList_inj.1 heq)
  | number n =>
    obtain rfl := List.mem_singleton.1 hword
    obtain ⟨c, more, hcons, hdigit⟩ := exists_cons_digitsOf n
    have hc : 'n' ≠ c := by
      rintro rfl
      cases hdigit
    simp [hcons, afterWord?, Text.after?, hc]
  | text content =>
    obtain ⟨quote, rfl | rfl, rfl⟩ := Symbol.spelling_text hword <;> rfl
  | opening | minus =>
    obtain rfl := List.mem_singleton.1 hword
    rfl
  | _ => cases hstarts

end Seen

/-! ## Outcomes -/

/-- What a reader makes of a text that starts with something nested `depth` deep and goes on with
the given symbols, where `n` levels may be nested. -/
inductive Outcome {α : Type} (n depth : Nat) (a : α) (symbols : List Symbol)
    (result : Except ExprFault (α × List Char)) : Prop
  | fits (room : depth ≤ n) (rest : List Char) (others : Spelled symbols rest)
    (read : result = .ok (a, rest))
  | tooDeep (full : n < depth) (behind : List Char) (refused : result = .error (.tooDeep behind))

theorem Outcome.map {α β : Type} {n depth : Nat} {a : α} {symbols : List Symbol}
    {result : Except ExprFault (α × List Char)} (h : Outcome n depth a symbols result)
    (f : α → β) : Outcome n depth (f a) symbols (result.map (Prod.map f id)) := by
  cases h with
  | fits room rest others read => exact .fits room rest others (by rw [read]; rfl)
  | tooDeep full behind refused => exact .tooDeep full behind (by rw [refused]; rfl)

/-- What is read one level deeper nests one level deeper. -/
theorem Outcome.nested {α : Type} {depth : Nat} {a : α} {symbols : List Symbol} {s : List Char}
    (reader read : Level → Reader α)
    (hrefusing : ∀ rest, reader .refusing rest = .error (.tooDeep rest))
    (haround : ∀ deeper, reader (.around deeper) = read deeper)
    (h : ∀ n, Outcome n depth a symbols (read (.atDepth n) s)) (n : Nat) :
    Outcome n (depth + 1) a symbols (reader (.atDepth n) s) := by
  cases n with
  | zero => exact .tooDeep (Nat.succ_pos depth) s (hrefusing s)
  | succ n =>
    rw [Level.atDepth, haround]
    cases h n with
    | fits room rest others read => exact .fits (Nat.succ_le_succ room) rest others read
    | tooDeep full behind refused => exact .tooDeep (Nat.succ_lt_succ full) behind refused

/-- The reader reads an expression of a place from every text that spells its symbols, whatever may
follow, up to the depth at which nothing may be nested any more. -/
def Reads (read : Level → Reader Expr) (place depth : Nat) (symbols : List Symbol) (e : Expr) :
    Prop :=
  ∀ (n : Nat) (more : List Symbol) (s : List Char), Follows place more →
    Spelled (symbols ++ more) s → Outcome n depth e more (read (.atDepth n) s)

/-! ## From strong places to weak ones -/

section Weaken

variable {depth : Nat} {symbols : List Symbol} {e : Expr}

theorem Reads.unary (h : Reads primary 5 depth symbols e) (hstarts : Starts 5 symbols) :
    Reads Expr.unary 4 depth symbols e := by
  intro n more s hmore hs
  have hminus : (Text.trimStart s).head? ≠ some '-' :=
    (hstarts.append more).head?_ne hs.trimStart (by decide)
  have hread : Expr.unary (.atDepth n) s = primary (.atDepth n) (Text.trimStart s) := by
    unfold Expr.unary
    split
    · next heq =>
      rw [heq] at hminus
      exact absurd rfl hminus
    · rfl
  rw [hread]
  exact h n more (Text.trimStart s) (hmore.mono (by decide)) hs.trimStart

theorem Reads.comparison (h : Reads Expr.unary 4 depth symbols e) :
    Reads Expr.comparison 3 depth symbols e := by
  intro n more s hmore hs
  cases h n more s (hmore.mono (by decide)) hs with
  | tooDeep full behind refused =>
    refine .tooDeep full behind ?_
    simp only [Expr.comparison, refused]
  | fits room rest others read =>
    refine .fits room (Text.trimStart rest) others.trimStart ?_
    simp only [Expr.comparison, read, comparison?_none hmore others]

theorem Reads.negation (h : Reads Expr.comparison 3 depth symbols e)
    (hstarts : Starts 3 symbols) : Reads Expr.negation 2 depth symbols e := by
  intro n more s hmore hs
  have hall := hstarts.append more
  have hmark : (Text.trimStart s).head? ≠ some '!' := hall.head?_ne hs.trimStart (by decide)
  have hread : Expr.negation (.atDepth n) s =
      Expr.comparison (.atDepth n) (Text.trimStart s) := by
    unfold Expr.negation
    split
    · next heq =>
      rw [heq] at hmark
      exact absurd rfl hmark
    · next heq =>
      rw [heq] at hmark
      exact absurd rfl hmark
    · rw [afterNot?_none hall hs]
  rw [hread]
  exact h n more (Text.trimStart s) (hmore.mono (by decide)) hs.trimStart

end Weaken

/-! ## Operators that chain -/

/-- An operator between expressions of one place more than its own. -/
structure Operator where
  symbol : Symbol
  place : Nat
  operand : Level → Reader Expr
  find : List Char → Option (List Char)
  combine : Expr → Expr → Expr
  follows : symbol.follows (place + 1) = true
  found : ∀ {symbols : List Symbol} {s : List Char}, Spelled (symbol :: symbols) s →
    ∃ rest, find (Text.trimStart s) = some rest ∧ Spelled symbols rest
  absent : ∀ {symbols : List Symbol} {s : List Char}, Follows place symbols → Spelled symbols s →
    find (Text.trimStart s) = none

namespace Operator

def conjunct : Operator where
  symbol := .conjunct
  place := 1
  operand := Expr.negation
  find := afterAnd?
  combine := and
  follows := rfl
  found := afterAnd?_some
  absent := afterAnd?_none

def disjunct : Operator where
  symbol := .disjunct
  place := 0
  operand := Expr.conjunction
  find := afterOr?
  combine := or
  follows := rfl
  found := afterOr?_some
  absent := afterOr?_none

variable (o : Operator) {depth : Nat} {symbols : List Symbol} {e : Expr}

/-- The reader of operands with the operator between each two. -/
def read (deeper : Level) : Reader Expr := chained (o.operand deeper) o.find o.combine

/-- The reader of operands with the operator between each two gets as far as the expression, and has
steps enough left for all that follows, be it another operator. -/
def Leads (depth : Nat) (symbols : List Symbol) (e : Expr) : Prop :=
  ∀ (n : Nat) (more : List Symbol) (s : List Char), Follows (o.place + 1) more →
    Spelled (symbols ++ more) s →
    (depth ≤ n ∧ ∃ rest steps, Spelled more rest ∧ more.length ≤ steps ∧
      o.read (.atDepth n) s = chain (o.operand (.atDepth n)) o.find o.combine steps e rest) ∨
    (n < depth ∧ ∃ behind, o.read (.atDepth n) s = .error (.tooDeep behind))

variable {o}

theorem Leads.one (h : Reads o.operand (o.place + 1) depth symbols e) :
    o.Leads depth symbols e := by
  intro n more s hmore hs
  cases h n more s hmore hs with
  | fits room rest others read =>
    refine .inl ⟨room, rest, rest.length, others, others.length_le, ?_⟩
    simp only [Operator.read, chained, read]
  | tooDeep full behind refused =>
    refine .inr ⟨full, behind, ?_⟩
    simp only [Operator.read, chained, refused]

theorem Leads.more {leftDepth rightDepth : Nat} {leftSymbols rightSymbols : List Symbol}
    {left right : Expr} (hleft : o.Leads leftDepth leftSymbols left)
    (hright : Reads o.operand (o.place + 1) rightDepth rightSymbols right) :
    o.Leads (max leftDepth rightDepth) (leftSymbols ++ o.symbol :: rightSymbols)
      (o.combine left right) := by
  intro n more s hmore hs
  rw [List.append_assoc, List.cons_append] at hs
  have hfollows : Follows (o.place + 1) (o.symbol :: (rightSymbols ++ more)) := by
    intro symbol hmem
    obtain rfl := Option.some.inj hmem
    exact o.follows
  rcases hleft n _ s hfollows hs with ⟨room, rest, steps, hrest, hsteps, hread⟩ | ⟨full, hread⟩
  · -- the operator takes one of the steps
    obtain ⟨after, hfind, hafter⟩ := o.found hrest
    rw [List.length_cons, List.length_append] at hsteps
    obtain _ | steps := steps
    · omega
    · cases hright n more after hmore hafter with
      | fits room' last others read =>
        refine .inl ⟨Nat.max_le.2 ⟨room, room'⟩, last, steps, others, by omega, ?_⟩
        rw [hread]
        simp only [chain, hfind, read]
      | tooDeep full behind refused =>
        refine .inr ⟨by omega, behind, ?_⟩
        rw [hread]
        simp only [chain, hfind, refused]
  · exact .inr ⟨by omega, hread⟩

theorem Leads.reads (h : o.Leads depth symbols e) : Reads o.read o.place depth symbols e := by
  intro n more s hmore hs
  rcases h n more s (hmore.mono (Nat.le_succ _)) hs with
    ⟨room, rest, steps, hrest, -, hread⟩ | ⟨full, behind, hread⟩
  · cases steps with
    | zero => exact .fits room rest hrest hread
    | succ steps =>
      refine .fits room (Text.trimStart rest) hrest.trimStart ?_
      rw [hread]
      simp only [chain, o.absent hmore hrest]
  · exact .tooDeep full behind hread

end Operator

/-! ## Expressions in their place -/

/-- The symbols are read as an expression of a place. -/
def ReadsAt (depth : Nat) (symbols : List Symbol) (e : Expr) : (place : Nat) → Prop
  | 0 => Operator.disjunct.Leads depth symbols e
  | 1 => Operator.conjunct.Leads depth symbols e
  | 2 => Reads Expr.negation 2 depth symbols e
  | 3 => Reads Expr.comparison 3 depth symbols e
  | 4 => Reads Expr.unary 4 depth symbols e
  | _ => Reads Expr.primary 5 depth symbols e

/-- What is read in a strong place is read in each weaker one. -/
theorem ReadsAt.mono {depth weak strong : Nat} {symbols : List Symbol} {e : Expr}
    (h : ReadsAt depth symbols e strong) (hle : weak ≤ strong) (hstarts : Starts strong symbols) :
    ReadsAt depth symbols e weak := by
  induction strong with
  | zero =>
    obtain rfl := Nat.le_zero.1 hle
    exact h
  | succ place ih =>
    by_cases heq : weak = place + 1
    · exact heq ▸ h
    · refine ih ?_ (by omega) (hstarts.mono (Nat.le_succ place))
      match place with
      | 0 => exact .one h.reads
      | 1 => exact .one h
      | 2 => exact Reads.negation h hstarts
      | 3 => exact Reads.comparison h
      | 4 => exact Reads.unary h hstarts
      | _ + 5 => exact h

/-- An expression is read wherever its symbols may stand, in parentheses or without. -/
def Readable (e : Expr) : Prop :=
  ∀ place ≤ 5, ReadsAt (e.nestingAt place) (e.symbolsAt place) e place ∧
    Starts place (e.symbolsAt place)

/-- Parentheses make an operand of what they enclose. -/
theorem reads_parentheses {depth : Nat} {symbols : List Symbol} {e : Expr}
    (h : Reads Expr.disjunction 0 depth symbols e) :
    Reads primary 5 (depth + 1) (.opening :: (symbols ++ [.closing])) e := by
  intro n more s _ hs
  rw [List.cons_append, List.append_assoc] at hs
  obtain ⟨word, inner, hword, htrim, -, hinner⟩ := hs.trimStart_cons
  obtain rfl := List.mem_singleton.1 hword
  have hfollows : Follows 0 ([.closing] ++ more) := by
    rintro symbol ⟨⟩
    rfl
  have hdeeper := Outcome.nested Level.disjunction Expr.disjunction (fun _ => rfl) (fun _ => rfl)
    (fun n => h n _ inner hfollows hinner) n
  rw [List.singleton_append] at htrim
  cases hdeeper with
  | fits room rest others read =>
    obtain ⟨word, last, hword, hclosing, -, hlast⟩ := others.trimStart_cons
    obtain rfl := List.mem_singleton.1 hword
    refine .fits room last hlast ?_
    simp only [primary, htrim, if_true, read, hclosing, List.singleton_append]
  | tooDeep full behind refused =>
    refine .tooDeep full behind ?_
    simp only [primary, htrim, if_true, refused]

/-- An expression that is read in its own place is read wherever it may stand. -/
theorem Readable.of_place {e : Expr} (h : ReadsAt e.nesting e.symbols e e.place)
    (hstarts : Starts e.place e.symbols) : Readable e := by
  intro place hplace
  by_cases hstrong : e.place < place
  · have hsymbols : e.symbolsAt place = .opening :: (e.symbols ++ [.closing]) := if_pos hstrong
    have hnesting : e.nestingAt place = e.nesting + 1 := if_pos hstrong
    have hweak := h.mono (Nat.zero_le _) hstarts
    have hopening : Starts 5 (.opening :: (e.symbols ++ [.closing])) := ⟨_, _, rfl, rfl⟩
    have hoperand : ReadsAt (e.nesting + 1) (.opening :: (e.symbols ++ [.closing])) e 5 :=
      reads_parentheses (Operator.Leads.reads hweak)
    rw [hsymbols, hnesting]
    exact ⟨hoperand.mono hplace hopening, hopening.mono hplace⟩
  · have hsymbols : e.symbolsAt place = e.symbols := if_neg hstrong
    have hnesting : e.nestingAt place = e.nesting := if_neg hstrong
    have hle : place ≤ e.place := Nat.le_of_not_lt hstrong
    rw [hsymbols, hnesting]
    exact ⟨h.mono hle hstarts, hstarts.mono hle⟩

/-- Nothing is weaker than the place where a whole expression stands. -/
theorem Readable.whole {e : Expr} (h : Readable e) :
    Reads Expr.disjunction 0 e.nesting e.symbols e ∧ Starts 0 e.symbols := by
  have hweak : ¬ e.place < 0 := Nat.not_lt_zero _
  have hsymbols : e.symbolsAt 0 = e.symbols := by rw [symbolsAt, enclose, if_neg hweak]
  have hnesting : e.nestingAt 0 = e.nesting := by rw [nestingAt, nestEnclosed, if_neg hweak]
  obtain ⟨hleads, hstarts⟩ := h 0 (Nat.zero_le 5)
  rw [hsymbols] at hstarts
  rw [hsymbols, hnesting] at hleads
  exact ⟨Operator.Leads.reads hleads, hstarts⟩

/-! ## Operands -/

theorem isDigit_of_isStart {c : Char} (h : Name.isStart c = true) : c.isDigit = false := by
  by_contra hdigit
  have hrange : 48 ≤ c.toNat ∧ c.toNat ≤ 57 := by
    rw [Bool.not_eq_false] at hdigit
    obtain ⟨h1, h2⟩ := Bool.and_eq_true_iff.1 hdigit
    exact ⟨of_decide_eq_true h1, of_decide_eq_true h2⟩
  rcases Bool.or_eq_true_iff.1 h with h | h
  · rcases Bool.or_eq_true_iff.1 h with hupper | hlower
    · have hmin : 65 ≤ c.toNat := (of_decide_eq_true hupper).1
      omega
    · have hmin : 97 ≤ c.toNat := of_decide_eq_true (Bool.and_eq_true_iff.1 hlower).1
      omega
  · obtain rfl := beq_iff_eq.1 h
    exact absurd hrange (by decide)

section Operands

variable {s : String} {symbols : List Symbol} {text : List Char} {deeper : Level}

theorem primary_word (hvalid : Name.isValid s.toList = true)
    (h : Spelled (.name s :: symbols) text) :
    ∃ rest, primary deeper text = word deeper (s.toList ++ rest) ∧ Apart s.toList rest ∧
      Spelled symbols rest := by
  obtain ⟨word, rest, hword, htrim, hapart, hrest⟩ := h.trimStart_cons
  obtain ⟨-, rfl⟩ := Symbol.spelling_name hword
  refine ⟨rest, ?_, hapart, hrest⟩
  obtain ⟨c, more, hcons, hc⟩ := Name.exists_cons_of_isValid hvalid
  have hmark {mark : Char} (hno : Name.isStart mark = false) : c ≠ mark := by
    rintro rfl
    exact Bool.false_ne_true (hno.symm.trans hc)
  have hopening : c ≠ '(' := hmark rfl
  have hquote : (c = '\'' || c = '"') = false := by
    simp only [Bool.or_eq_false_iff, decide_eq_false_iff_not]
    exact ⟨hmark rfl, hmark rfl⟩
  have hdigit := isDigit_of_isStart hc
  rw [hcons] at htrim ⊢
  rw [List.cons_append] at htrim ⊢
  simp only [primary, htrim, if_neg hopening, hquote, hdigit, Bool.false_eq_true, if_false, hc,
    if_true]

theorem word_literal {v : Value} (hv : literalSymbols v = [.name s])
    (hvalid : Name.isValid s.toList = true) {rest : List Char} (h : Apart s.toList rest) :
    word deeper (s.toList ++ rest) = .ok (literal v, rest) := by
  obtain ⟨htake, hdrop⟩ := takeWhile_name hvalid h
  rw [word, htake, hdrop, String.ofList_toList]
  cases v with
  | null =>
    cases hv
    rfl
  | bool b =>
    cases b <;>
    · cases hv
      rfl
  | _ => cases hv

/-- A word that is no literal is the name of a function, if a parenthesis follows, or a path. -/
theorem word_name (hvalid : Name.isValid s.toList = true) (hs : s ∉ ["null", "true", "false"])
    {rest : List Char} (h : Apart s.toList rest) :
    word deeper (s.toList ++ rest) =
      match Text.trimStart rest with
      | '(' :: rest => (deeper.arguments rest).map fun (es, rest) => (call s es, rest)
      | rest => .ok (path s, rest) := by
  obtain ⟨htake, hdrop⟩ := takeWhile_name hvalid h
  have hname : String.ofList ((s.toList ++ rest).takeWhile Name.isPart) = s := by
    rw [htake, String.ofList_toList]
  have hother {literal : String} (hmem : literal ∈ ["null", "true", "false"])
      (heq : String.ofList ((s.toList ++ rest).takeWhile Name.isPart) = literal) : False :=
    hs (hname.symm.trans heq ▸ hmem)
  unfold word
  rw [hdrop]
  split
  · next heq => exact (hother (by decide) heq).elim
  · next heq => exact (hother (by decide) heq).elim
  · next heq => exact (hother (by decide) heq).elim
  · generalize String.ofList ((s.toList ++ rest).takeWhile Name.isPart) = name at hname
    subst hname
    rfl

theorem reads_word {v : Value} (hv : literalSymbols v = [.name s])
    (hvalid : Name.isValid s.toList = true) : Reads primary 5 0 [.name s] (literal v) := by
  intro n more text _ h
  obtain ⟨rest, hread, hapart, hrest⟩ := primary_word hvalid h
  refine .fits (Nat.zero_le n) rest hrest ?_
  rw [hread, word_literal hv hvalid hapart]

theorem reads_path (h : isOperandName s = true) : Reads primary 5 0 [.name s] (path s) := by
  obtain ⟨hvalid, hliteral, -⟩ := of_isOperandName h
  intro n more text hmore hs
  obtain ⟨rest, hread, hapart, hrest⟩ := primary_word hvalid hs
  have hopening : (Text.trimStart rest).head? ≠ some '(' :=
    hmore.head?_ne hrest.trimStart (by decide)
  refine .fits (Nat.zero_le n) (Text.trimStart rest) hrest.trimStart ?_
  rw [hread, word_name hvalid hliteral hapart]
  split
  · next heq =>
    rw [heq] at hopening
    exact absurd rfl hopening
  · rfl

/-- The content of a text is read back, escapes undone. -/
theorem quoted?_escape {quote : Char} (hquote : quote ≠ '\\') (content rest : List Char) :
    quoted? quote (escapeQuote quote content ++ quote :: rest) = some (content, rest) := by
  have hplain {c : Char} (hc : c ≠ '\\') (s : List Char) : quoted? quote (c :: s) =
      if c = quote then some ([], s)
      else (quoted? quote s).map (Prod.map (c :: ·) id) := by
    rw [quoted?]
    · rfl
    · exact fun hcons => absurd hcons hc
    · exact fun _ _ hcons => absurd hcons hc
  induction content with
  | nil =>
    rw [escapeQuote, List.flatMap_nil, List.nil_append, hplain hquote, if_pos rfl]
  | cons c content ih =>
    rw [escapeQuote] at ih
    rw [escapeQuote, List.flatMap_cons, List.append_assoc]
    split
    · rw [List.cons_append, List.cons_append, List.nil_append, quoted?, ih]
      rfl
    · next hescape =>
      rw [not_or] at hescape
      rw [List.cons_append, List.nil_append, hplain hescape.1, if_neg hescape.2, ih]
      rfl

theorem reads_text {content : String} :
    Reads primary 5 0 [.text content] (literal (.string content)) := by
  intro n more text _ h
  obtain ⟨word, rest, hword, htrim, -, hrest⟩ := h.trimStart_cons
  obtain ⟨quote, hquote, rfl⟩ := Symbol.spelling_text hword
  have hopening : quote ≠ '(' := by rintro rfl; simp at hquote
  have hbackslash : quote ≠ '\\' := by rintro rfl; simp at hquote
  have hmark : (quote = '\'' || quote = '"') = true := by simpa using hquote
  rw [List.cons_append, List.append_assoc] at htrim
  have hcontent := quoted?_escape hbackslash content.toList rest
  refine .fits (Nat.zero_le n) rest hrest ?_
  simp only [primary, htrim, if_neg hopening, hmark, if_true, List.singleton_append, hcontent,
    String.ofList_toList]

theorem ofDigits_digitsOf (n : Nat) : Decimal.ofDigits (Decimal.digitsOf n) = n := by
  have h := Nat.ofDigitChars_ten_toDigits (n := n)
  rwa [Nat.ofDigitChars_eq_foldl] at h

/-- Digits are read as the integer that they stand for, if neither a digit nor a point follows. -/
theorem number_digitsOf {i : Int64} (h : 0 ≤ i) {rest : List Char}
    (hdigit : rest.head?.any Char.isDigit = false) (hpoint : rest.head? ≠ some '.') :
    number (Decimal.digitsOf i.toNatClampNeg ++ rest) = .ok (literal (.int i), rest) := by
  obtain ⟨htake, hdrop⟩ := takeWhile_run
    (fun c (hc : c ∈ Decimal.digitsOf i.toNatClampNeg) => isDigit_of_mem_digitsOf hc) hdigit
  have hmax : i.toNatClampNeg ≤ maxInteger := Nat.le_of_lt_succ i.toNatClampNeg_lt
  unfold number
  simp only [htake, hdrop]
  split
  · exact absurd rfl hpoint
  · simp only [number.integer, ofDigits_digitsOf, if_pos hmax, Int64.ofNat_toNatClampNeg i h]

theorem reads_number {i : Int64} (h : 0 ≤ i) :
    Reads primary 5 0 [.number i.toNatClampNeg] (literal (.int i)) := by
  intro n more text hmore hs
  obtain ⟨word, rest, hword, htrim, -, hrest⟩ := hs.trimStart_cons
  obtain rfl := List.mem_singleton.1 hword
  have hstop : rest.head?.any Char.isDigit = false := by
    cases rest with
    | nil => rfl
    | cons c rest =>
      by_contra hrun
      have hdigit : c.isDigit = true := by simpa using hrun
      refine hmore.head?_ne hrest ?_ rfl
      rintro (hblank | hmem)
      · have hpart := Name.isBlank_of_isPart (isPart_of_isDigit hdigit)
        exact Bool.false_ne_true (hpart.symm.trans hblank)
      · have hnone : [')', ',', '|', 'o', '&', 'a', '=', '!', '<', '>'].all
            (fun d => !d.isDigit) = true := rfl
        have hc := List.all_eq_true.1 hnone c hmem
        rw [hdigit] at hc
        cases hc
  have hpoint : rest.head? ≠ some '.' := hmore.head?_ne hrest (by decide)
  obtain ⟨c, digits, hcons, hdigit⟩ := exists_cons_digitsOf i.toNatClampNeg
  have hmark {mark : Char} (hno : mark.isDigit = false) : c ≠ mark := by
    rintro rfl
    exact Bool.false_ne_true (hno.symm.trans hdigit)
  have hopening : c ≠ '(' := hmark rfl
  have hquote : (c = '\'' || c = '"') = false := by
    simp only [Bool.or_eq_false_iff, decide_eq_false_iff_not]
    exact ⟨hmark rfl, hmark rfl⟩
  have hnumber := number_digitsOf h hstop hpoint
  rw [hcons, List.cons_append] at htrim hnumber
  refine .fits (Nat.zero_le n) rest hrest ?_
  simp only [primary, htrim, if_neg hopening, hquote, hdigit, Bool.false_eq_true, if_false,
    if_true, hnumber]

end Operands

/-! ## Nested constructs -/

section Constructs

variable {depth : Nat} {symbols : List Symbol} {e : Expr}

theorem reads_neg (h : Reads Expr.unary 4 depth symbols e) :
    Reads Expr.unary 4 (depth + 1) (.minus :: symbols) (neg e) := by
  intro n more s hmore hs
  obtain ⟨word, rest, hword, htrim, -, hrest⟩ := hs.trimStart_cons
  obtain rfl := List.mem_singleton.1 hword
  have hdeeper := Outcome.nested Level.unary Expr.unary (fun _ => rfl) (fun _ => rfl)
    (fun n => h n more rest hmore hrest) n
  have hread : Expr.unary (.atDepth n) s =
      ((Level.atDepth n).unary rest).map (Prod.map neg id) := by
    unfold Expr.unary
    rw [htrim]
    rfl
  rw [hread]
  exact hdeeper.map neg

theorem reads_not (h : Reads Expr.negation 2 depth symbols e) (hstarts : Starts 2 symbols) :
    Reads Expr.negation 2 (depth + 1) (.negate :: symbols) (not e) := by
  intro n more s hmore hs
  obtain ⟨word, rest, hword, htrim, hapart, hrest⟩ := hs.trimStart_cons
  have hdeeper := Outcome.nested Level.negation Expr.negation (fun _ => rfl) (fun _ => rfl)
    (fun n => h n more rest hmore hrest) n
  have hread : Expr.negation (.atDepth n) s =
      ((Level.atDepth n).negation rest).map (Prod.map not id) := by
    unfold Expr.negation
    rw [htrim]
    rcases List.mem_cons.1 hword with rfl | hmem
    · have hequal : rest.head? ≠ some '=' := (hstarts.append more).head?_ne hrest (by decide)
      split
      · next heq =>
        obtain rfl := (List.cons.inj heq).2
        exact absurd rfl hequal
      · next heq =>
        obtain rfl := (List.cons.inj heq).2
        rfl
      · next hnone => exact absurd rfl (hnone rest)
    · obtain rfl := List.mem_singleton.1 hmem
      split
      · next heq => cases heq
      · next heq => cases heq
      · rw [afterWord?_apart rfl hapart]
        rfl
  rw [hread]
  exact hdeeper.map not

theorem reads_compare {op : Comparison} {leftDepth rightDepth : Nat}
    {leftSymbols rightSymbols : List Symbol} {left right : Expr}
    (hleft : Reads Expr.unary 4 leftDepth leftSymbols left)
    (hright : Reads Expr.unary 4 rightDepth rightSymbols right)
    (hstarts : Starts 4 rightSymbols) :
    Reads Expr.comparison 3 (max leftDepth rightDepth)
      (leftSymbols ++ .compare op :: rightSymbols) (compare op left right) := by
  intro n more s hmore hs
  rw [List.append_assoc, List.cons_append] at hs
  have hfollows : Follows 4 (.compare op :: (rightSymbols ++ more)) := by
    rintro symbol ⟨⟩
    rfl
  cases hleft n _ s hfollows hs with
  | tooDeep full behind refused =>
    refine .tooDeep (by omega) behind ?_
    simp only [Expr.comparison, refused]
  | fits room rest others read =>
    obtain ⟨after, hfind, hafter⟩ := comparison?_some others (hstarts.append more)
    cases hright n more after (hmore.mono (by decide)) hafter with
    | tooDeep full behind refused =>
      refine .tooDeep (by omega) behind ?_
      simp only [Expr.comparison, read, hfind, refused]
      rfl
    | fits room' last others' read' =>
      refine .fits (Nat.max_le.2 ⟨room, room'⟩) last others' ?_
      simp only [Expr.comparison, read, hfind, read']
      rfl

end Constructs

/-! ## Arguments -/

theorem length_symbolsOf : ∀ arguments : List Expr,
    arguments.length ≤ (symbolsOf arguments).length + 1
  | [] => Nat.zero_le _
  | [e] => Nat.le_add_left _ _
  | e :: next :: rest => by
    have h := length_symbolsOf (next :: rest)
    simp only [symbolsOf, List.length_append, List.length_cons] at h ⊢
    omega

theorem reads_someArguments : ∀ (arguments : List Expr) (steps n : Nat) (more : List Symbol)
    (s : List Char), arguments ≠ [] → (∀ e ∈ arguments, Readable e) →
    arguments.length ≤ steps → Spelled (symbolsOf arguments ++ .closing :: more) s →
    Outcome n (nestingOf arguments) arguments more (someArguments (.atDepth n) steps s)
  | [], _, _, _, _, hne, _, _, _ => absurd rfl hne
  | e :: rest, 0, _, _, _, _, _, hsteps, _ => by cases hsteps
  | [e], steps + 1, n, more, s, _, hread, _, hs => by
    have hfollows : Follows 0 (.closing :: more) := by
      rintro symbol ⟨⟩
      rfl
    have hdepth : nestingOf [e] = e.nesting := Nat.max_zero _
    rw [hdepth]
    cases (hread e List.mem_cons_self).whole.1 n _ s hfollows hs with
    | tooDeep full behind refused =>
      refine .tooDeep full behind ?_
      simp only [someArguments, refused]
    | fits room rest others read =>
      obtain ⟨word, last, hword, htrim, -, hlast⟩ := others.trimStart_cons
      obtain rfl := List.mem_singleton.1 hword
      refine .fits room last hlast ?_
      simp only [someArguments, read, htrim, List.singleton_append]
  | e :: next :: rest, steps + 1, n, more, s, _, hread, hsteps, hs => by
    rw [symbolsOf, List.append_assoc, List.cons_append] at hs
    have hfollows : Follows 0 (.comma :: (symbolsOf (next :: rest) ++ .closing :: more)) := by
      rintro symbol ⟨⟩
      rfl
    have hdepth : nestingOf (e :: next :: rest) = max e.nesting (nestingOf (next :: rest)) := rfl
    cases (hread e List.mem_cons_self).whole.1 n _ s hfollows hs with
    | tooDeep full behind refused =>
      refine .tooDeep (by omega) behind ?_
      simp only [someArguments, refused]
    | fits room after others read =>
      obtain ⟨word, inner, hword, htrim, -, hinner⟩ := others.trimStart_cons
      obtain rfl := List.mem_singleton.1 hword
      have hothers : ∀ e ∈ next :: rest, Readable e :=
        fun e he => hread e (List.mem_cons_of_mem _ he)
      have hleft : (next :: rest).length ≤ steps := Nat.le_of_succ_le_succ hsteps
      cases reads_someArguments (next :: rest) steps n more inner (List.cons_ne_nil _ _) hothers
        hleft hinner with
      | tooDeep full behind refused =>
        refine .tooDeep (by omega) behind ?_
        simp only [someArguments, read, htrim, List.singleton_append, refused]
        rfl
      | fits room' last others' read' =>
        refine .fits (by omega) last others' ?_
        simp only [someArguments, read, htrim, List.singleton_append, read']
        rfl

theorem starts_symbolsOf {e : Expr} (h : Readable e) (rest : List Expr) :
    Starts 0 (symbolsOf (e :: rest)) := by
  cases rest with
  | nil => exact h.whole.2
  | cons next rest => exact h.whole.2.append _

theorem reads_arguments {arguments : List Expr} (hread : ∀ e ∈ arguments, Readable e) (n : Nat)
    {more : List Symbol} {s : List Char}
    (hs : Spelled (symbolsOf arguments ++ .closing :: more) s) :
    Outcome n (nestingOf arguments) arguments more (Expr.arguments (.atDepth n) s) := by
  cases arguments with
  | nil =>
    obtain ⟨word, rest, hword, htrim, -, hrest⟩ := hs.trimStart_cons
    obtain rfl := List.mem_singleton.1 hword
    refine .fits (Nat.zero_le n) rest hrest ?_
    simp only [Expr.arguments, htrim, List.singleton_append]
  | cons e rest =>
    have hlength := length_symbolsOf (e :: rest)
    have hspelled := hs.trimStart.length_le
    rw [List.length_append, List.length_cons] at hspelled
    have hstarts := starts_symbolsOf (hread e List.mem_cons_self) rest
    have hclosing : (Text.trimStart s).head? ≠ some ')' :=
      (hstarts.append _).head?_ne hs.trimStart (by decide)
    have hsome : Expr.arguments (.atDepth n) s =
        someArguments (.atDepth n) ((Text.trimStart s).length + 1) (Text.trimStart s) := by
      unfold Expr.arguments
      split
      · next heq =>
        rw [heq] at hclosing
        exact absurd rfl hclosing
      · rfl
    rw [hsome]
    exact reads_someArguments (e :: rest) _ n more _ (List.cons_ne_nil _ _) hread (by omega)
      hs.trimStart

/-- A call is the name of a function, and its arguments nest. -/
theorem reads_call {name : String} {arguments : List Expr} (hname : isOperandName name = true)
    (hread : ∀ e ∈ arguments, Readable e) :
    Reads primary 5 (nestingOf arguments + 1)
      (.name name :: .opening :: (symbolsOf arguments ++ [.closing])) (call name arguments) := by
  obtain ⟨hvalid, hliteral, -⟩ := of_isOperandName hname
  intro n more text hmore hs
  rw [List.cons_append, List.cons_append, List.append_assoc] at hs
  obtain ⟨rest, hread', hapart, hrest⟩ := primary_word hvalid hs
  obtain ⟨word, inner, hword, htrim, -, hinner⟩ := hrest.trimStart_cons
  obtain rfl := List.mem_singleton.1 hword
  have hdeeper := Outcome.nested Level.arguments Expr.arguments (fun _ => rfl) (fun _ => rfl)
    (fun n => reads_arguments hread n hinner) n
  have hcall : primary (.atDepth n) text =
      ((Level.atDepth n).arguments inner).map (Prod.map (call name) id) := by
    rw [hread', word_name hvalid hliteral hapart, htrim]
    rfl
  rw [hcall]
  exact hdeeper.map (call name)

/-! ## All expressions -/

theorem reads_literal {v : Value} (h : isPlainLiteral v = true) :
    Reads primary 5 0 (literalSymbols v) (literal v) := by
  cases v with
  | null => exact reads_word rfl (by decide)
  | bool b => cases b <;> exact reads_word rfl (by decide)
  | int i => exact reads_number (of_decide_eq_true h)
  | string s => exact reads_text
  | float x | list items | map entries => cases h

theorem starts_literal {v : Value} (h : isPlainLiteral v = true) : Starts 5 (literalSymbols v) := by
  cases v with
  | null => exact ⟨_, _, rfl, by decide⟩
  | bool b => cases b <;> exact ⟨_, _, rfl, by decide⟩
  | int i => exact ⟨_, _, rfl, rfl⟩
  | string s => exact ⟨_, _, rfl, rfl⟩
  | float x | list items | map entries => cases h

mutual

/-- Every expression that can be written is read back, wherever it may stand. -/
theorem readable : ∀ e : Expr, e.isPlain = true → Readable e
  | literal v, h => .of_place (reads_literal h) (starts_literal h)
  | path p, h => by
    obtain ⟨-, -, hstarts⟩ := of_isOperandName h
    exact .of_place (reads_path h) ⟨_, _, rfl, hstarts⟩
  | call name arguments, h => by
    rw [isPlain, Bool.and_eq_true] at h
    obtain ⟨-, -, hstarts⟩ := of_isOperandName h.1
    exact .of_place (reads_call h.1 (readableAll arguments h.2)) ⟨_, _, rfl, hstarts⟩
  | not e, h => by
    obtain ⟨hread, hstarts⟩ := readable e h 2 (by decide)
    exact .of_place (reads_not hread hstarts) ⟨_, _, rfl, rfl⟩
  | neg e, h => by
    obtain ⟨hread, -⟩ := readable e h 4 (by decide)
    exact .of_place (reads_neg hread) ⟨_, _, rfl, rfl⟩
  | and left right, h => by
    rw [isPlain, Bool.and_eq_true] at h
    obtain ⟨hleft, hstarts⟩ := readable left h.1 1 (by decide)
    obtain ⟨hright, -⟩ := readable right h.2 2 (by decide)
    exact .of_place (Operator.Leads.more hleft hright) (hstarts.append _)
  | or left right, h => by
    rw [isPlain, Bool.and_eq_true] at h
    obtain ⟨hleft, hstarts⟩ := readable left h.1 0 (by decide)
    obtain ⟨hright, -⟩ := readable right h.2 1 (by decide)
    exact .of_place (Operator.Leads.more hleft (Operator.Leads.reads hright)) (hstarts.append _)
  | compare op left right, h => by
    rw [isPlain, Bool.and_eq_true] at h
    obtain ⟨hleft, hstarts⟩ := readable left h.1 4 (by decide)
    obtain ⟨hright, hright'⟩ := readable right h.2 4 (by decide)
    exact .of_place (reads_compare hleft hright hright')
      ((hstarts.append _).mono (Nat.le_succ 3))

theorem readableAll : ∀ arguments : List Expr, arePlain arguments = true →
    ∀ e ∈ arguments, Readable e
  | [], _, _, he => by cases he
  | e :: rest, h, e', he => by
    rw [arePlain, Bool.and_eq_true] at h
    rcases List.mem_cons.1 he with heq | he
    · exact heq ▸ readable e h.1
    · exact readableAll rest h.2 e' he

end

/-- What becomes of a text that spells an expression is what becomes of the expression in it. -/
theorem outcome_of_spelled {e : Expr} (hplain : e.isPlain = true) {source : String}
    (h : Spelled e.symbols source.toList) :
    Outcome maxNesting e.nesting e []
      ((Level.atDepth (maxNesting + 1)).disjunction source.toList) := by
  have hend : Spelled (e.symbols ++ []) source.toList := by rwa [List.append_nil]
  exact (readable e hplain).whole.1 maxNesting [] source.toList nofun hend

theorem parse_eq {e : Expr} (hplain : e.isPlain = true) (hdepth : e.nesting ≤ maxNesting)
    {source : String} (h : Spelled e.symbols source.toList) : parse source = .ok e := by
  cases outcome_of_spelled hplain h with
  | fits _ rest others read => simp only [parse, read, others.trimStart_nil]
  | tooDeep full => exact absurd full (Nat.not_lt.2 hdepth)

/-- A text that spells an expression is read as that expression, if it nests no deeper than the
limit, and is refused as too deep otherwise. -/
theorem parse_spelled {e : Expr} (hplain : e.isPlain = true) {source : String}
    (h : Spelled e.symbols source.toList) :
    (e.nesting ≤ maxNesting → parse source = .ok e) ∧
      (maxNesting < e.nesting → ∃ behind, parse source = .error (.tooDeep behind)) := by
  refine ⟨fun room => parse_eq hplain room h, fun full => ?_⟩
  cases outcome_of_spelled hplain h with
  | fits room => exact absurd full (Nat.not_lt.2 room)
  | tooDeep _ behind refused =>
    refine ⟨behind, ?_⟩
    simp only [parse, refused]

/-- An expression with every operator, and one that nests too deep. -/
theorem parse_spelled_operators :
    let e : Expr := .or
      (.and (.not (.compare .le (.path "a.b") (.neg (.call "f" [.literal (.string "it's")]))))
        (.or (.path "or") (.literal .null)))
      (.path "x")
    let source := " ! a.b <= - f ( 'it\\'s' ) && ( or || null ) || x"
    let deep : Expr := Nat.repeat Expr.not 65 (.path "x")
    e.isPlain = true ∧ Spelled e.symbols source.toList ∧ parse source = .ok e ∧
      deep.isPlain = true ∧
        ∃ behind, parse (String.ofList (spell deep.symbols)) = .error (.tooDeep behind) := by
  intro e source deep
  have hplain : e.isPlain = true := by decide +kernel
  have hsource : source.toList = spell e.symbols := by decide +kernel
  have hspelled : Spelled e.symbols source.toList := hsource ▸ spelled_spell_symbols hplain
  have hdeep : deep.isPlain = true := by decide +kernel
  have hspelled' : Spelled deep.symbols (String.ofList (spell deep.symbols)).toList := by
    rw [String.toList_ofList]
    exact spelled_spell_symbols hdeep
  exact ⟨hplain, hspelled, (parse_spelled hplain hspelled).1 (by decide +kernel), hdeep,
    (parse_spelled hdeep hspelled').2 (by decide +kernel)⟩

end TwoWaySql.Expr
