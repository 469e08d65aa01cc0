import TwoWaySql.Expr.Parse
import TwoWaySql.Proofs.Directives

/-!
# Written expressions

How an expression may be written. It is first a row of symbols, with parentheses where the grammar
of the readers needs them and nowhere else (`Expr.symbols`). A row of symbols may then be spelled in
many ways (`Expr.Spelled`): the logical operators have two spellings, texts stand in either quote,
and any blanks may stand between two symbols. Where a word would run into what follows it, some
blank has to.

This file defines both, says how deep a written expression nests (`Expr.nesting`), and shows what a
reader sees at the start of a text that spells a row of symbols.
-/

namespace TwoWaySql

/-- How a comparison is written. -/
def Comparison.spelling : Comparison → List Char
  | eq => ['=', '=']
  | ne => ['!', '=']
  | lt => ['<']
  | le => ['<', '=']
  | gt => ['>']
  | ge => ['>', '=']

namespace Expr

/-! ## Symbols -/

/-- A part of a written expression that no blank may interrupt. -/
inductive Symbol where
  /-- A path, the name of a function, or a literal that is a word. -/
  | name (s : String)
  | number (n : Nat)
  | text (content : String)
  | opening
  | closing
  | comma
  | minus
  | negate
  | conjunct
  | disjunct
  | compare (op : Comparison)
  deriving DecidableEq, Repr

/-- The content of a text with a backslash in front of each backslash and each quote of its kind. -/
def escapeQuote (quote : Char) (content : List Char) : List Char :=
  content.flatMap fun c => if c = '\\' ∨ c = quote then ['\\', c] else [c]

/-- The ways to write a symbol. What is no name cannot be written as one. -/
def Symbol.spellings : Symbol → List (List Char)
  | name s => if Name.isValid s.toList then [s.toList] else []
  | number n => [Decimal.digitsOf n]
  | text content =>
    ['\'', '"'].map fun quote => quote :: (escapeQuote quote content.toList ++ [quote])
  | opening => [['(']]
  | closing => [[')']]
  | comma => [[',']]
  | minus => [['-']]
  | negate => [['!'], ['n', 'o', 't']]
  | conjunct => [['&', '&'], ['a', 'n', 'd']]
  | disjunct => [['|', '|'], ['o', 'r']]
  | compare op => [op.spelling]

/-- A word does not run into what follows it. -/
def Apart (word rest : List Char) : Prop :=
  word.head?.any Name.isStart = true → rest.head?.any Name.isPart = false

/-- The text spells the symbols, with any blanks between them and around them. -/
inductive Spelled : List Symbol → List Char → Prop
  | nil {blanks : List Char} (blank : ∀ c ∈ blanks, Text.isBlank c = true) : Spelled [] blanks
  | cons {symbol : Symbol} {symbols : List Symbol} {blanks word rest : List Char}
    (blank : ∀ c ∈ blanks, Text.isBlank c = true) (spelling : word ∈ symbol.spellings)
    (apart : Apart word rest) (others : Spelled symbols rest) :
    Spelled (symbol :: symbols) (blanks ++ (word ++ rest))

/-! ## The symbols of an expression -/

/-- How strongly the parts of an expression hold together, by its outermost one: 0 for "or", 1 for
"and", 2 for a negation, 3 for a comparison, 4 for a sign and 5 for an operand. -/
def place : Expr → Nat
  | or _ _ => 0
  | and _ _ => 1
  | not _ => 2
  | compare _ _ _ => 3
  | neg _ => 4
  | literal _ | path _ | call _ _ => 5

/-- Symbols of an expression where one of a place is needed: in parentheses if theirs is weaker. -/
def enclose (needed place : Nat) (symbols : List Symbol) : List Symbol :=
  if place < needed then .opening :: (symbols ++ [.closing]) else symbols

/-- The symbols of a literal that can be written as one. -/
def literalSymbols : Value → List Symbol
  | .null => [.name "null"]
  | .bool true => [.name "true"]
  | .bool false => [.name "false"]
  | .int i => [.number i.toNatClampNeg]
  | .string s => [.text s]
  | _ => []

mutual

/-- The symbols of an expression, with as few parentheses as the grammar admits. -/
def symbols : Expr → List Symbol
  | literal v => literalSymbols v
  | path p => [.name p]
  | call name arguments => .name name :: .opening :: (symbolsOf arguments ++ [.closing])
  | not e => .negate :: enclose 2 e.place (symbols e)
  | neg e => .minus :: enclose 4 e.place (symbols e)
  -- operators of one kind chain to the left
  | and left right =>
    enclose 1 left.place (symbols left) ++ .conjunct :: enclose 2 right.place (symbols right)
  | or left right =>
    enclose 0 left.place (symbols left) ++ .disjunct :: enclose 1 right.place (symbols right)
  | compare op left right =>
    enclose 4 left.place (symbols left) ++ .compare op :: enclose 4 right.place (symbols right)

/-- The symbols of arguments, with a comma between each two. -/
def symbolsOf : List Expr → List Symbol
  | [] => []
  | [e] => symbols e
  | e :: next :: rest => symbols e ++ .comma :: symbolsOf (next :: rest)

end

/-- How deep a part nests where an expression of a place is needed. -/
def nestEnclosed (needed place nesting : Nat) : Nat :=
  if place < needed then nesting + 1 else nesting

mutual

/-- How deep parentheses, negations, signs and argument lists nest in a written expression. -/
def nesting : Expr → Nat
  | literal _ | path _ => 0
  | call _ arguments => nestingOf arguments + 1
  | not e => nestEnclosed 2 e.place (nesting e) + 1
  | neg e => nestEnclosed 4 e.place (nesting e) + 1
  | and left right =>
    max (nestEnclosed 1 left.place (nesting left)) (nestEnclosed 2 right.place (nesting right))
  | or left right =>
    max (nestEnclosed 0 left.place (nesting left)) (nestEnclosed 1 right.place (nesting right))
  | compare _ left right =>
    max (nestEnclosed 4 left.place (nesting left)) (nestEnclosed 4 right.place (nesting right))

def nestingOf : List Expr → Nat
  | [] => 0
  | e :: rest => max (nesting e) (nestingOf rest)

end

/-- The symbols of an expression where one of the given place is needed. -/
def symbolsAt (needed : Nat) (e : Expr) : List Symbol := enclose needed e.place e.symbols

def nestingAt (needed : Nat) (e : Expr) : Nat := nestEnclosed needed e.place e.nesting

/-! ## Expressions that can be written -/

/-- Whether a name can be written as an operand: it is a name, no literal, and no negation. -/
def isOperandName (name : String) : Bool :=
  Name.isValid name.toList && !(["null", "true", "false", "not"].contains name) &&
    !(['n', 'o', 't', '.'].isPrefixOf name.toList)

/-- Whether a literal can be written: a negative integer is an expression with a sign. -/
def isPlainLiteral : Value → Bool
  | .null | .bool _ | .string _ => true
  | .int i => 0 ≤ i
  | _ => false

mutual

/-- Whether an expression can be written. -/
def isPlain : Expr → Bool
  | literal v => isPlainLiteral v
  | path p => isOperandName p
  | call name arguments => isOperandName name && arePlain arguments
  | not e | neg e => isPlain e
  | and left right | or left right | compare _ left right => isPlain left && isPlain right

def arePlain : List Expr → Bool
  | [] => true
  | e :: rest => isPlain e && arePlain rest

end

/-! ## Spellings -/

theorem isPart_of_isDigit {c : Char} (h : c.isDigit = true) : Name.isPart c = true := by
  simp [Name.isPart, Name.isInner, Char.isAlphanum, h]

theorem isDigit_of_mem_digitsOf {n : Nat} {c : Char} (h : c ∈ Decimal.digitsOf n) :
    c.isDigit = true :=
  Nat.isDigit_of_mem_toDigits (by decide) (by decide) h

theorem exists_cons_digitsOf (n : Nat) :
    ∃ c rest, Decimal.digitsOf n = c :: rest ∧ c.isDigit = true := by
  have hne : Decimal.digitsOf n ≠ [] := Nat.toDigits_ne_nil
  obtain ⟨c, rest, hcons⟩ := List.exists_cons_of_ne_nil hne
  exact ⟨c, rest, hcons, isDigit_of_mem_digitsOf (hcons ▸ List.mem_cons_self)⟩

namespace Symbol

theorem spelling_name {s : String} {word : List Char} (h : word ∈ (name s).spellings) :
    Name.isValid s.toList = true ∧ word = s.toList := by
  rw [spellings] at h
  split at h
  · next hvalid => exact ⟨hvalid, List.mem_singleton.1 h⟩
  · cases h

theorem spelling_text {content : String} {word : List Char} (h : word ∈ (text content).spellings) :
    ∃ quote, (quote = '\'' ∨ quote = '"') ∧
      word = quote :: (escapeQuote quote content.toList ++ [quote]) := by
  obtain ⟨quote, hquote, rfl⟩ := List.mem_map.1 h
  exact ⟨quote, by simpa using hquote, rfl⟩

/-- Every spelling starts with a character that can be seen. -/
theorem exists_head {symbol : Symbol} {word : List Char} (h : word ∈ symbol.spellings) :
    ∃ c rest, word = c :: rest ∧ Text.isBlank c = false := by
  cases symbol with
  | name s =>
    obtain ⟨hvalid, rfl⟩ := spelling_name h
    obtain ⟨c, rest, hcons, hc⟩ := Name.exists_cons_of_isValid hvalid
    have hpart := Name.isPart_of_isInner (Name.isInner_of_isStart hc)
    exact ⟨c, rest, hcons, Name.isBlank_of_isPart hpart⟩
  | number n =>
    obtain rfl := List.mem_singleton.1 h
    obtain ⟨c, rest, hcons, hdigit⟩ := exists_cons_digitsOf n
    exact ⟨c, rest, hcons, Name.isBlank_of_isPart (isPart_of_isDigit hdigit)⟩
  | text content =>
    obtain ⟨quote, rfl | rfl, rfl⟩ := spelling_text h
    · exact ⟨'\'', _, rfl, by decide⟩
    · exact ⟨'"', _, rfl, by decide⟩
  | compare op =>
    obtain rfl := List.mem_singleton.1 h
    cases op <;> exact ⟨_, _, rfl, by decide⟩
  | negate | conjunct | disjunct =>
    rcases List.mem_cons.1 h with rfl | h
    · exact ⟨_, _, rfl, by decide⟩
    · obtain rfl := List.mem_singleton.1 h
      exact ⟨_, _, rfl, by decide⟩
  | opening | closing | comma | minus =>
    obtain rfl := List.mem_singleton.1 h
    exact ⟨_, _, rfl, by decide⟩

end Symbol

theorem trimStart_blanks {blanks : List Char} (h : ∀ c ∈ blanks, Text.isBlank c = true)
    (s : List Char) : Text.trimStart (blanks ++ s) = Text.trimStart s :=
  List.dropWhile_append_of_pos h

theorem trimStart_cons {c : Char} (h : Text.isBlank c = false) (s : List Char) :
    Text.trimStart (c :: s) = c :: s :=
  List.dropWhile_cons_of_neg (by simp [h])

namespace Spelled

theorem trimStart_nil {s : List Char} (h : Spelled [] s) : Text.trimStart s = [] := by
  cases h with
  | nil blank => exact List.dropWhile_eq_nil_iff.2 blank

/-- Behind blanks, a text starts with a spelling of its first symbol. -/
theorem trimStart_cons {symbol : Symbol} {symbols : List Symbol} {s : List Char}
    (h : Spelled (symbol :: symbols) s) :
    ∃ word rest, word ∈ symbol.spellings ∧ Text.trimStart s = word ++ rest ∧ Apart word rest ∧
      Spelled symbols rest := by
  cases h with
  | @cons _ _ blanks word rest blank spelling apart others =>
    refine ⟨word, rest, spelling, ?_, apart, others⟩
    obtain ⟨c, more, rfl, hc⟩ := Symbol.exists_head spelling
    rw [trimStart_blanks blank, List.cons_append, Expr.trimStart_cons hc]

theorem trimStart {symbols : List Symbol} {s : List Char} (h : Spelled symbols s) :
    Spelled symbols (Text.trimStart s) := by
  cases symbols with
  | nil =>
    rw [h.trimStart_nil]
    exact .nil nofun
  | cons symbol symbols =>
    obtain ⟨word, rest, hword, htrim, hapart, hrest⟩ := h.trimStart_cons
    have hspelled : Spelled (symbol :: symbols) ([] ++ (word ++ rest)) :=
      .cons nofun hword hapart hrest
    rwa [htrim]

/-- Each symbol takes a character at least. -/
theorem length_le {symbols : List Symbol} {s : List Char} (h : Spelled symbols s) :
    symbols.length ≤ s.length := by
  induction h with
  | nil => exact Nat.zero_le _
  | cons _ hword _ _ ih =>
    obtain ⟨c, more, rfl, -⟩ := Symbol.exists_head hword
    simp only [List.length_cons, List.length_append]
    omega

/-- A text starts with a blank or with a spelling of its first symbol. -/
theorem head {symbol : Symbol} {symbols : List Symbol} {s : List Char}
    (h : Spelled (symbol :: symbols) s) :
    ∃ c rest, s = c :: rest ∧
      (Text.isBlank c = true ∨ ∃ more, c :: more ∈ symbol.spellings) := by
  cases h with
  | @cons _ _ blanks word rest blank spelling apart others =>
    obtain ⟨c, more, rfl, -⟩ := Symbol.exists_head spelling
    cases blanks with
    | nil => exact ⟨c, more ++ rest, rfl, .inr ⟨more, spelling⟩⟩
    | cons b blanks => exact ⟨b, _, rfl, .inl (blank b List.mem_cons_self)⟩

end Spelled

/-! ## What stands in front of an expression and behind it -/

/-- Whether a symbol may stand behind an expression of the given place. -/
def Symbol.follows (place : Nat) : Symbol → Bool
  | closing | comma => true
  | disjunct => 1 ≤ place
  | conjunct => 2 ≤ place
  | compare _ => 4 ≤ place
  | _ => false

def Follows (place : Nat) (symbols : List Symbol) : Prop :=
  ∀ symbol ∈ symbols.head?, symbol.follows place = true

/-- Whether an expression of the given place may start with a symbol. -/
def Symbol.starts (place : Nat) : Symbol → Bool
  | name s => s != "not" && !(['n', 'o', 't', '.'].isPrefixOf s.toList)
  | number _ | text _ | opening => true
  | minus => place ≤ 4
  | negate => place ≤ 2
  | _ => false

def Starts (place : Nat) (symbols : List Symbol) : Prop :=
  ∃ symbol rest, symbols = symbol :: rest ∧ symbol.starts place = true

/-- The name of an operand is no literal and can stand wherever an operand can. -/
theorem of_isOperandName {s : String} (h : isOperandName s = true) :
    Name.isValid s.toList = true ∧ s ∉ ["null", "true", "false"] ∧
      (Symbol.name s).starts 5 = true := by
  simp only [isOperandName, Bool.and_eq_true, Bool.not_eq_true', List.contains_eq_mem,
    List.mem_cons, List.not_mem_nil, or_false, decide_eq_false_iff_not, not_or] at h
  obtain ⟨⟨hvalid, hnull, htrue, hfalse, hnot⟩, hdot⟩ := h
  refine ⟨hvalid, by simp [hnull, htrue, hfalse], ?_⟩
  simp [Symbol.starts, hnot, hdot]

theorem Follows.mono {weak strong : Nat} {symbols : List Symbol} (h : Follows weak symbols)
    (hle : weak ≤ strong) : Follows strong symbols := by
  intro symbol hmem
  have hfollows := h symbol hmem
  cases symbol with
  | closing | comma => rfl
  | disjunct | conjunct | compare op =>
    simp only [Symbol.follows, decide_eq_true_eq] at hfollows ⊢
    omega
  | _ => cases hfollows

theorem Starts.mono {weak strong : Nat} {symbols : List Symbol} (h : Starts strong symbols)
    (hle : weak ≤ strong) : Starts weak symbols := by
  obtain ⟨symbol, rest, rfl, hstarts⟩ := h
  refine ⟨symbol, rest, rfl, ?_⟩
  cases symbol with
  | minus | negate =>
    simp only [Symbol.starts, decide_eq_true_eq] at hstarts ⊢
    omega
  | _ => exact hstarts

theorem Starts.append {place : Nat} {symbols : List Symbol} (h : Starts place symbols)
    (more : List Symbol) : Starts place (symbols ++ more) := by
  obtain ⟨symbol, rest, rfl, hstarts⟩ := h
  exact ⟨symbol, rest ++ more, rfl, hstarts⟩

/-- The first character of a text that starts an expression. -/
theorem Symbol.head_of_starts {place : Nat} {symbol : Symbol} {c : Char} {rest : List Char}
    (h : symbol.starts place = true) (hword : c :: rest ∈ symbol.spellings) :
    Name.isPart c = true ∨ c ∈ ['\'', '"', '('] ∨ c = '-' ∧ place ≤ 4 ∨ c = '!' ∧ place ≤ 2 := by
  cases symbol with
  | name s =>
    obtain ⟨hvalid, hcons⟩ := spelling_name hword
    exact .inl (Name.isPart_of_isValid hvalid c (hcons ▸ List.mem_cons_self))
  | number n =>
    have hmem : c ∈ Decimal.digitsOf n := List.mem_singleton.1 hword ▸ List.mem_cons_self
    exact .inl (isPart_of_isDigit (isDigit_of_mem_digitsOf hmem))
  | text content =>
    obtain ⟨quote, rfl | rfl, hcons⟩ := spelling_text hword
    · obtain ⟨rfl, -⟩ := List.cons.inj hcons
      exact .inr (.inl (by decide))
    · obtain ⟨rfl, -⟩ := List.cons.inj hcons
      exact .inr (.inl (by decide))
  | opening =>
    obtain ⟨rfl, -⟩ := List.cons.inj (List.mem_singleton.1 hword)
    exact .inr (.inl (by decide))
  | minus =>
    obtain ⟨rfl, -⟩ := List.cons.inj (List.mem_singleton.1 hword)
    exact .inr (.inr (.inl ⟨rfl, by simpa [starts] using h⟩))
  | negate =>
    rcases List.mem_cons.1 hword with hcons | hmem
    · obtain ⟨rfl, -⟩ := List.cons.inj hcons
      exact .inr (.inr (.inr ⟨rfl, by simpa [starts] using h⟩))
    · obtain ⟨rfl, -⟩ := List.cons.inj (List.mem_singleton.1 hmem)
      exact .inl (by decide)
  | _ => cases h

/-- The first character of a text that stands behind an expression. -/
theorem Symbol.head_of_follows {place : Nat} {symbol : Symbol} {c : Char} {rest : List Char}
    (h : symbol.follows place = true) (hword : c :: rest ∈ symbol.spellings) :
    c ∈ [')', ',', '|', 'o', '&', 'a', '=', '!', '<', '>'] := by
  cases symbol with
  | closing | comma =>
    obtain ⟨rfl, -⟩ := List.cons.inj (List.mem_singleton.1 hword)
    decide
  | disjunct | conjunct =>
    rcases List.mem_cons.1 hword with hcons | hmem
    · obtain ⟨rfl, -⟩ := List.cons.inj hcons
      decide
    · obtain ⟨rfl, -⟩ := List.cons.inj (List.mem_singleton.1 hmem)
      decide
  | compare op =>
    have hcons := List.mem_singleton.1 hword
    cases op <;>
    · obtain ⟨rfl, -⟩ := List.cons.inj hcons
      decide
  | _ => cases h

/-! ## One spelling for every expression -/

/-- The symbols in their first spelling, each behind a space. -/
def spell (symbols : List Symbol) : List Char :=
  symbols.flatMap fun symbol => ' ' :: symbol.spellings.headD []

def CanSpell (symbols : List Symbol) : Prop := ∀ symbol ∈ symbols, symbol.spellings ≠ []

theorem spelled_spell {symbols : List Symbol} (h : CanSpell symbols) :
    Spelled symbols (spell symbols) := by
  induction symbols with
  | nil => exact .nil nofun
  | cons symbol rest ih =>
    obtain ⟨hsymbol, hrest⟩ := List.forall_mem_cons.1 h
    obtain ⟨word, others, hwords⟩ := List.exists_cons_of_ne_nil hsymbol
    have hblank : ∀ c ∈ [' '], Text.isBlank c = true := List.all_eq_true.1 rfl
    have hword : word ∈ symbol.spellings := hwords ▸ List.mem_cons_self
    have hapart : Apart word (spell rest) := by
      intro _
      cases rest <;> rfl
    have hspell : spell (symbol :: rest) = [' '] ++ (word ++ spell rest) := by
      rw [spell, List.flatMap_cons, hwords]
      rfl
    rw [hspell]
    exact .cons hblank hword hapart (ih hrest)

theorem CanSpell.append {symbols more : List Symbol} (h : CanSpell symbols)
    (hmore : CanSpell more) : CanSpell (symbols ++ more) :=
  List.forall_mem_append.2 ⟨h, hmore⟩

theorem CanSpell.cons {symbol : Symbol} {symbols : List Symbol} (h : symbol.spellings ≠ [])
    (hrest : CanSpell symbols) : CanSpell (symbol :: symbols) :=
  List.forall_mem_cons.2 ⟨h, hrest⟩

theorem CanSpell.enclose {symbols : List Symbol} (h : CanSpell symbols) (needed place : Nat) :
    CanSpell (Expr.enclose needed place symbols) := by
  unfold Expr.enclose
  split
  · exact .cons nofun (h.append (.cons nofun nofun))
  · exact h

theorem canSpell_name {s : String} (h : Name.isValid s.toList = true) :
    (Symbol.name s).spellings ≠ [] := by
  rw [Symbol.spellings, if_pos h]
  exact List.cons_ne_nil _ _

theorem canSpell_literal : ∀ v : Value, CanSpell (literalSymbols v)
  | .null | .bool true | .bool false => .cons (by decide) nofun
  | .int _ | .string _ => .cons nofun nofun
  | .float _ | .list _ | .map _ => nofun

mutual

theorem canSpell_symbols : ∀ e : Expr, e.isPlain = true → CanSpell e.symbols
  | literal v, _ => canSpell_literal v
  | path p, h => .cons (canSpell_name (of_isOperandName h).1) nofun
  | call name arguments, h => by
    rw [isPlain, Bool.and_eq_true] at h
    have harguments := canSpell_symbolsOf arguments h.2
    exact .cons (canSpell_name (of_isOperandName h.1).1)
      (.cons nofun (harguments.append (.cons nofun nofun)))
  | not e, h => .cons nofun ((canSpell_symbols e h).enclose 2 e.place)
  | neg e, h => .cons nofun ((canSpell_symbols e h).enclose 4 e.place)
  | and left right, h | or left right, h | compare op left right, h => by
    rw [isPlain, Bool.and_eq_true] at h
    exact .append ((canSpell_symbols left h.1).enclose _ _)
      (.cons nofun ((canSpell_symbols right h.2).enclose _ _))

theorem canSpell_symbolsOf : ∀ arguments : List Expr, arePlain arguments = true →
    CanSpell (symbolsOf arguments)
  | [], _ => nofun
  | [e], h => by
    rw [arePlain, Bool.and_eq_true] at h
    exact canSpell_symbols e h.1
  | e :: next :: rest, h => by
    rw [arePlain, Bool.and_eq_true] at h
    exact .append (canSpell_symbols e h.1) (.cons nofun (canSpell_symbolsOf (next :: rest) h.2))

end

/-- Every expression that can be written has a spelling. -/
theorem spelled_spell_symbols {e : Expr} (h : e.isPlain = true) :
    Spelled e.symbols (spell e.symbols) :=
  spelled_spell (canSpell_symbols e h)

end Expr

end TwoWaySql
