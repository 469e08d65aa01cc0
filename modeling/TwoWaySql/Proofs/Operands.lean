import TwoWaySql.Proofs.Comparisons
import TwoWaySql.Proofs.Height

/-!
# Conditions that are one operand

A condition may be nothing but a name or an integer. This file

1. follows a text that is taken as one operand through the readers of the weaker operators
   (`Expr.parse_of_negation`, `Expr.parse_of_unary`);
2. says which names a condition gives the parameter of: all that are names and no words of the
   language, but for those whose first segment is the word for a negation, as a negation ends at a
   dot (`Evaluator.givesPath_iff`);
3. says which integers can be written: all but the least one, as a sign is an operator that is
   applied to an integer without one (`Evaluator.evaluate_integer`).
-/

namespace TwoWaySql

namespace Expr

/-! ## A single operand -/

/-- Where nothing is left behind an operand, no operator follows it. -/
theorem chained_of_operand {operand : Reader Expr} {find : List Char → Option (List Char)}
    {combine : Expr → Expr → Expr} {s : List Char} {r : Except ExprFault Expr}
    (h : operand s = r.map (·, [])) : chained operand find combine s = r.map (·, []) := by
  unfold chained
  rw [h]
  cases r <;> rfl

theorem parse_of_negation {source : String} {r : Except ExprFault Expr}
    (h : negation (.atDepth maxNesting) source.toList = r.map (·, [])) : parse source = r := by
  have hdisjunction : (Level.atDepth (maxNesting + 1)).disjunction source.toList =
      r.map (·, []) := chained_of_operand (chained_of_operand h)
  unfold parse
  rw [hdisjunction]
  cases r <;> rfl

/-- A digit or a sign starts no negation. -/
theorem parse_of_unary {source : String} {c : Char} {s : List Char}
    (hsource : source.toList = c :: s) (hc : c.isDigit = true ∨ c = '-')
    {r : Except ExprFault Expr}
    (h : unary (.atDepth maxNesting) (c :: s) = r.map (·, [])) : parse source = r := by
  have hblank : Text.isBlank c = false := by
    rcases hc with hdigit | rfl
    · exact Name.isBlank_of_isPart (isPart_of_isDigit hdigit)
    · decide
  have hmark (mark : Char) (hdigit : mark.isDigit = false) (hsign : mark ≠ '-') : mark ≠ c := by
    rintro rfl
    rcases hc with hc | rfl
    · exact Bool.false_ne_true (hdigit.symm.trans hc)
    · exact hsign rfl
  have hword : afterWord? ['n', 'o', 't'] (c :: s) = none := by
    simp only [afterWord?, Text.after?, if_neg (hmark 'n' rfl (by decide))]
  have hnegation : negation (.atDepth maxNesting) (c :: s) =
      comparison (.atDepth maxNesting) (c :: s) := by
    unfold negation
    rw [trimStart_cons hblank]
    split
    · next heq => exact absurd (List.cons.inj heq).1.symm (hmark '!' rfl (by decide))
    · next heq => exact absurd (List.cons.inj heq).1.symm (hmark '!' rfl (by decide))
    · rw [hword]
  refine parse_of_negation ?_
  rw [hsource, hnegation, comparison, h]
  cases r <;> rfl

/-! ## Names -/

theorem message_expected {source what : String} {c : Char} {rest : List Char} {n : Nat}
    (h : offsetOf source (c :: rest) = n) :
    ExprFault.message source (.expected what (c :: rest)) =
      s!"expected {what} at position {n}, found '{c}'" := by
  rw [← h]
  rfl

theorem parse_name {name : String} (h : isOperandName name = true) :
    parse name = .ok (path name) := by
  obtain ⟨hvalid, -, -⟩ := of_isOperandName h
  have hspelling : name.toList ∈ (Symbol.name name).spellings := by
    rw [Symbol.spellings, if_pos hvalid]
    exact List.mem_singleton_self _
  have hspelled : Spelled [.name name] ([] ++ (name.toList ++ [])) :=
    .cons (List.forall_mem_nil _) hspelling (fun _ => rfl) (.nil (List.forall_mem_nil _))
  rw [List.nil_append, List.append_nil] at hspelled
  have hplain : (path name).isPlain = true := h
  exact parse_eq hplain (Nat.zero_le _) hspelled

/-- A name whose first segment is the word for a negation is a negation of what follows the word,
and no operand starts with a dot. -/
theorem parse_notDot {name : String} {rest : List Char}
    (h : name.toList = 'n' :: 'o' :: 't' :: '.' :: rest) :
    parse name = .error (.expected "an operand" ('.' :: rest)) := by
  refine parse_of_negation ?_
  rw [h]
  rfl

theorem offsetOf_notDot {name : String} {rest : List Char}
    (h : name.toList = 'n' :: 'o' :: 't' :: '.' :: rest) : offsetOf name ('.' :: rest) = 3 := by
  have hname : name = "not" ++ String.ofList ('.' :: rest) := by
    rw [← String.toList_inj, h, String.toList_append, String.toList_ofList, String.toList_ofList]
    rfl
  rw [offsetOf, hname, String.utf8ByteSize_append, Nat.add_sub_cancel]
  decide

theorem message_notDot {name : String} {rest : List Char}
    (h : name.toList = 'n' :: 'o' :: 't' :: '.' :: rest) :
    ExprFault.message name (.expected "an operand" ('.' :: rest)) =
      "expected an operand at position 3, found '.'" := by
  rw [message_expected (offsetOf_notDot h)]
  decide

end Expr

namespace Evaluator

/-- A condition that is the name gives what the lookup finds at that path, and null for a path where
there is nothing. -/
def GivesPath (e : Evaluator) (name : String) : Prop :=
  e.identifiers name = [name] ∧
    ∀ l : Lookup, e.evaluate name l =
      match l.path? name with
      | .ok found => .ok (found.getD .null)
      | .error fault => .error (.evaluation name fault.message)

/-- A name that is no word of the language can be read in a condition unless its first segment is
the word for a negation. The condition is then a negation without an operand, whatever the
parameters are. -/
theorem givesPath_iff (functions : Functions) {name : String}
    (hvalid : Name.isValid name.toList = true) (hword : name ∉ ["null", "true", "false", "not"]) :
    (GivesPath (stock functions) name ↔ ¬ "not.".toList <+: name.toList) ∧
      ("not.".toList <+: name.toList → (stock functions).identifiers name = [] ∧
        ∀ l : Lookup, (stock functions).evaluate name l =
          .error (.evaluation name "expected an operand at position 3, found '.'")) := by
  have hnegation (hdot : "not.".toList <+: name.toList) :
      (stock functions).identifiers name = [] ∧ ∀ l : Lookup,
        (stock functions).evaluate name l =
          .error (.evaluation name "expected an operand at position 3, found '.'") := by
    obtain ⟨rest, hrest⟩ := hdot
    have hparse := Expr.parse_notDot hrest.symm
    have hmessage := Expr.message_notDot hrest.symm
    constructor
    · simp only [stock, ofFunctions, hparse]
    · intro l
      rw [stock, Expr.evaluate_refused hparse, hmessage]
  refine ⟨⟨fun hgives hdot => ?_, fun hdot => ?_⟩, hnegation⟩
  · have hnone := (hnegation hdot).1.symm.trans hgives.1
    cases hnone
  · have hname : Expr.isOperandName name = true := by
      rw [Expr.isOperandName, hvalid, Bool.true_and, Bool.and_eq_true, Bool.not_eq_true',
        Bool.not_eq_true', List.contains_eq_mem, decide_eq_false_iff_not]
      exact ⟨hword, by simpa [← Bool.not_eq_true] using hdot⟩
    have hparse := Expr.parse_name hname
    constructor
    · simp only [stock, ofFunctions, hparse]
      rfl
    · intro l
      simp only [stock, ofFunctions, hparse, Expr.eval]
      cases l.path? name <;> rfl

/-- Names that go on behind a word of the language, and a name behind the word for a negation. -/
theorem givesPath_iff_words :
    let words := ["null", "true", "false", "not"]
    (∀ name ∈ ["or", "nothing.not", "not_1", "null.x", "true1.0"],
      Name.isValid name.toList = true ∧ name ∉ words ∧ GivesPath (stock []) name) ∧
    Name.isValid "not.x".toList = true ∧ "not.x" ∉ words ∧ ¬ GivesPath (stock []) "not.x" ∧
      (stock []).identifiers "not.x" = [] := by
  intro words
  have hnames : ∀ name ∈ ["or", "nothing.not", "not_1", "null.x", "true1.0"],
      Name.isValid name.toList = true ∧ name ∉ words ∧ ¬ "not.".toList <+: name.toList := by
    decide
  have hvalid : Name.isValid "not.x".toList = true := by decide
  have hword : "not.x" ∉ words := by decide
  have hdot : "not.".toList <+: "not.x".toList := by decide
  obtain ⟨hiff, hnegation⟩ := givesPath_iff [] hvalid hword
  refine ⟨fun name hname => ?_, hvalid, hword, fun hgives => hiff.1 hgives hdot,
    (hnegation hdot).1⟩
  obtain ⟨hvalid, hword, hdot⟩ := hnames name hname
  exact ⟨hvalid, hword, (givesPath_iff [] hvalid hword).1.2 hdot⟩

/-- Not every name can be read in a condition: `not.x` cannot. -/
theorem not_forall_givesPath :
    ¬ ∀ (functions : Functions) (name : String), Name.isValid name.toList = true →
        name ∉ ["null", "true", "false", "not"] → GivesPath (stock functions) name := by
  intro h
  have hgives := h [] "not.x" (by decide) (by decide)
  have hparse : Expr.parse "not.x" = .error (.expected "an operand" ['.', 'x']) :=
    Expr.parse_notDot rfl
  have hidentifiers := hgives.1
  simp only [stock, ofFunctions, hparse] at hidentifiers
  cases hidentifiers

end Evaluator

/-! ## Integers -/

namespace Expr

/-- The operand that digits are. -/
def ofDigits (digits : List Char) : Except ExprFault Expr :=
  if Decimal.ofDigits digits ≤ maxInteger then
    .ok (literal (.int (Int64.ofNat (Decimal.ofDigits digits))))
  else .error (.integerTooLarge digits)

/-- Digits, behind a minus sign if they are to be negative. -/
def signed (negative : Bool) (digits : List Char) : List Char :=
  if negative then '-' :: digits else digits

section Digits

variable {digits : List Char} (hne : digits ≠ []) (hdigits : ∀ c ∈ digits, c.isDigit = true)

include hdigits

theorem number_digits : number digits = (ofDigits digits).map (·, []) := by
  have hstop : ([] : List Char).head?.any Char.isDigit = false := rfl
  obtain ⟨htake, hdrop⟩ := takeWhile_run hdigits hstop
  rw [List.append_nil] at htake hdrop
  simp only [number, htake, hdrop, number.integer, ofDigits]
  split <;> rfl

include hne

theorem unary_digits (deeper : Level) : unary deeper digits = (ofDigits digits).map (·, []) := by
  have hnumber := number_digits hdigits
  obtain ⟨c, rest, rfl⟩ := List.exists_cons_of_ne_nil hne
  have hdigit := hdigits c List.mem_cons_self
  have htrim := trimStart_cons (Name.isBlank_of_isPart (isPart_of_isDigit hdigit)) rest
  have hmark {mark : Char} (hno : mark.isDigit = false) : c ≠ mark := by
    rintro rfl
    exact Bool.false_ne_true (hno.symm.trans hdigit)
  have hopening : c ≠ '(' := hmark rfl
  have hquote : (c = '\'' || c = '"') = false := by
    simp only [Bool.or_eq_false_iff, decide_eq_false_iff_not]
    exact ⟨hmark rfl, hmark rfl⟩
  have hprimary : primary deeper (c :: rest) = number (c :: rest) := by
    simp only [primary, htrim, if_neg hopening, hquote, hdigit, Bool.false_eq_true, if_false,
      if_true]
  unfold unary
  rw [htrim]
  split
  · next heq => exact absurd (List.cons.inj heq).1 (hmark rfl)
  · rw [hprimary, hnumber]

/-- An integer that is the whole condition. -/
theorem parse_signed (negative : Bool) :
    parse (String.ofList (signed negative digits)) =
      (ofDigits digits).map (if negative then neg else id) := by
  cases negative with
  | true =>
    have hsign : unary (.atDepth maxNesting) ('-' :: digits) =
        ((ofDigits digits).map neg).map (·, []) := by
      have hinner := unary_digits hne hdigits (.atDepth (maxNesting - 1))
      show (unary (.atDepth (maxNesting - 1)) digits).map (Prod.map neg id) = _
      rw [hinner]
      cases ofDigits digits <;> rfl
    exact parse_of_unary (String.toList_ofList ..) (.inr rfl) hsign
  | false =>
    have hoperand := unary_digits hne hdigits (.atDepth maxNesting)
    obtain ⟨c, rest, rfl⟩ := List.exists_cons_of_ne_nil hne
    have hdigit := hdigits c List.mem_cons_self
    have hparse : parse (String.ofList (c :: rest)) = ofDigits (c :: rest) :=
      parse_of_unary (String.toList_ofList ..) (.inl hdigit) hoperand
    show parse (String.ofList (c :: rest)) = (ofDigits (c :: rest)).map id
    rw [hparse]
    cases ofDigits (c :: rest) <;> rfl

end Digits

end Expr

namespace Evaluator

/-- Digits are the integer that they stand for, with its sign turned behind a minus sign, if that
integer can be written without the sign. Otherwise they are an error. -/
theorem evaluate_signed (functions : Functions) (l : Lookup) (negative : Bool) {digits : List Char}
    (hne : digits ≠ []) (hdigits : ∀ c ∈ digits, c.isDigit = true) :
    let source := String.ofList (Expr.signed negative digits)
    let n : Int := Decimal.ofDigits digits
    (n ≤ Expr.maxInteger → ∃ i : Int64, i.toInt = (if negative then -n else n) ∧
      (stock functions).evaluate source l = .ok (.int i)) ∧
    (Expr.maxInteger < n → (stock functions).evaluate source l =
      .error (.evaluation source ("invalid number '" ++ String.ofList digits ++
        "': number too large to fit in target type"))) := by
  intro source n
  have hparse := Expr.parse_signed hne hdigits negative
  constructor
  · intro hle
    have hle : Decimal.ofDigits digits ≤ Expr.maxInteger := Int.ofNat_le.1 hle
    have hmax : Decimal.ofDigits digits < 2 ^ 63 := Nat.lt_succ_of_le hle
    let i := Int64.ofNat (Decimal.ofDigits digits)
    have hinteger : i.toInt = n := Int64.toInt_ofNat_of_lt hmax
    rw [Expr.ofDigits, if_pos hle] at hparse
    cases negative with
    | true =>
      have hsign : (-i).toInt = -n := by
        rw [Int64.toInt_neg, hinteger]
        exact Int.bmod_eq_of_le (by omega) (by omega)
      have hmin : i ≠ Int64.minValue := by
        intro heq
        rw [heq, Int64.toInt_minValue] at hinteger
        omega
      refine ⟨-i, hsign, ?_⟩
      have hvalue : (Value.int i).negate = .ok (.int (-i)) := if_neg hmin
      have heval : (Expr.neg (.literal (.int i))).eval (functions ++ Builtin.functions) l =
          .ok (.int (-i)) := hvalue
      simp only [stock, ofFunctions, source, hparse, Except.map, if_true]
      rw [heval]
    | false =>
      refine ⟨i, hinteger, ?_⟩
      simp only [stock, ofFunctions, source, hparse]
      rfl
  · intro hlt
    have hlt : ¬ Decimal.ofDigits digits ≤ Expr.maxInteger := Nat.not_le.2 (Int.ofNat_lt.1 hlt)
    rw [Expr.ofDigits, if_neg hlt] at hparse
    exact Expr.evaluate_refused hparse _ l

/-- Every integer but the least one can be written as a condition, in the digits and with the sign
that it has in a statement. The readers take the digits for an integer and the sign for an operator
on it, and the least integer has digits that are no integer by themselves. Digits that stand for no
integer are an error and not another number. -/
theorem evaluate_integer (functions : Functions) (l : Lookup) :
    (∀ i : Int64, (stock functions).evaluate (Value.int i).text l = .ok (.int i) ↔
      i ≠ Int64.minValue) ∧
    ∀ (negative : Bool) (digits : List Char), digits ≠ [] → (∀ c ∈ digits, c.isDigit = true) →
      let source := String.ofList (Expr.signed negative digits)
      let n : Int := Decimal.ofDigits digits
      (n ≤ Expr.maxInteger → ∃ i : Int64, i.toInt = (if negative then -n else n) ∧
        (stock functions).evaluate source l = .ok (.int i)) ∧
      (Expr.maxInteger < n → (stock functions).evaluate source l =
        .error (.evaluation source ("invalid number '" ++ String.ofList digits ++
          "': number too large to fit in target type"))) := by
  refine ⟨fun i => ?_, fun negative digits => evaluate_signed functions l negative⟩
  obtain ⟨c, rest, hdigits, -⟩ := Expr.exists_cons_digitsOf i.toInt.natAbs
  have hne : Decimal.digitsOf i.toInt.natAbs ≠ [] := hdigits ▸ List.cons_ne_nil c rest
  obtain ⟨hsmall, hlarge⟩ := evaluate_signed functions l (decide (i.toInt < 0)) hne
    fun c hc => Expr.isDigit_of_mem_digitsOf hc
  have htext : (Value.int i).text =
      String.ofList (Expr.signed (decide (i.toInt < 0)) (Decimal.digitsOf i.toInt.natAbs)) := by
    simp only [Value.text, Decimal.whole, Expr.signed, decide_eq_true_eq]
  rw [Expr.ofDigits_digitsOf, ← htext] at hsmall hlarge
  constructor
  · rintro hvalue rfl
    have herror := hlarge (by decide)
    rw [hvalue] at herror
    cases herror
  · intro hmin
    have hlow := Int64.le_toInt i
    have hhigh := Int64.toInt_lt i
    have hle : (i.toInt.natAbs : Int) ≤ Expr.maxInteger := by
      have hleast : i.toInt ≠ Int64.minValue.toInt := fun heq => hmin (Int64.toInt_inj.1 heq)
      rw [Int64.toInt_minValue] at hleast
      show (i.toInt.natAbs : Int) ≤ 9223372036854775807
      omega
    obtain ⟨j, hj, hvalue⟩ := hsmall hle
    have heq : j = i := by
      rw [← Int64.toInt_inj, hj]
      by_cases hnegative : i.toInt < 0
      · rw [if_pos (decide_eq_true hnegative)]
        omega
      · rw [if_neg (by simpa using hnegative)]
        omega
    rw [hvalue, heq]

/-- The greatest integer, the one above the least, and one that is written with zeros in front,
which are the integer that they are written as; the least integer and the first one that is too
large, which are errors. -/
theorem evaluate_integer_ends (l : Lookup) :
    let written (i : Int64) : Except Error Value := (stock []).evaluate (Value.int i).text l
    written Int64.maxValue = .ok (.int Int64.maxValue) ∧
      written (Int64.minValue + 1) = .ok (.int (Int64.minValue + 1)) ∧
      written Int64.minValue ≠ .ok (.int Int64.minValue) ∧
      (stock []).evaluate "-007" l = .ok (.int (-7)) ∧
      (stock []).evaluate "9223372036854775808" l = .error (.evaluation "9223372036854775808"
        "invalid number '9223372036854775808': number too large to fit in target type") := by
  intro written
  obtain ⟨hinteger, hdigits⟩ := evaluate_integer [] l
  obtain ⟨hseven, -⟩ := hdigits true ['0', '0', '7'] (by decide) (List.all_eq_true.1 rfl)
  obtain ⟨-, hlarge⟩ :=
    hdigits false "9223372036854775808".toList (by decide) (List.all_eq_true.1 rfl)
  obtain ⟨i, hi, hvalue⟩ := hseven (by decide)
  have heq : i = -7 := Int64.toInt_inj.1 hi
  refine ⟨(hinteger _).2 (by decide), (hinteger _).2 (by decide), fun h => ?_, ?_, ?_⟩
  · exact (hinteger _).1 h rfl
  · rw [← heq]
    exact hvalue
  · exact hlarge (by decide)

/-- Not every integer can be written as a condition. -/
theorem not_forall_evaluate_integer :
    ¬ ∀ (functions : Functions) (l : Lookup) (i : Int64),
        (stock functions).evaluate (Value.int i).text l = .ok (.int i) := by
  intro h
  have hleast := h [] Parameters.empty.lookup Int64.minValue
  have hparse : Expr.parse (Value.int Int64.minValue).text =
      .error (.integerTooLarge "9223372036854775808".toList) := by
    have hdigits : ∀ c ∈ "9223372036854775808".toList, c.isDigit = true :=
      List.all_eq_true.1 rfl
    exact Expr.parse_signed (by decide) hdigits true
  have herror := Expr.evaluate_refused hparse ([] ++ Builtin.functions) Parameters.empty.lookup
  cases hleast.symm.trans herror

end Evaluator

end TwoWaySql
