import TwoWaySql.Evaluator
import TwoWaySql.Proofs.Collecting
import TwoWaySql.Proofs.Reading
import TwoWaySql.Proofs.Rounding

/-!
# Comparisons of parameters

What conditions that compare two parameters say, however they are spelled (`Evaluator.Gives`).

Conditions take numbers for equal if they are equal as doubles. Two integers are compared as the
doubles that are nearest to them, so those that have the same nearest double cannot be told apart
(`Evaluator.gives_integers`). Lists and maps are compared as values, where an integer is equal to
itself only. So two lists may differ although all their items are equal as operands, and this
happens exactly if an integer meets a float or another integer (`Value.equal_eq`,
`Evaluator.gives_collections`).
-/

namespace TwoWaySql

/-- Two orders that the same comparisons hold of are the same. -/
theorem Comparison.admits_inj {o o' : Ordering} :
    (∀ op : Comparison, op.admits o = op.admits o') ↔ o = o' := by
  constructor
  · intro h
    have hlt := h .lt
    have hgt := h .gt
    cases o <;> cases o' <;> simp_all [admits]
  · intro h op
    rw [h]

/-! ## Values -/

namespace Value

open Rounding

/-- An integer and a float, or two different integers. As operands they may be equal, as items of
lists they are not. -/
def mixed : Value → Value → Bool
  | int _, float _ => true
  | float _, int _ => true
  | int a, int b => a != b
  | _, _ => false

theorem natAbs_toInt_lt (i : Int64) : i.toInt.natAbs < 2 ^ 64 := by
  have hlow := Int64.le_toInt i
  have hhigh := Int64.toInt_lt i
  omega

theorem same_int (a b : Int64) :
    same (int a) (int b) = (nearest a.toInt == nearest b.toInt) :=
  ofInt_beq (natAbs_toInt_lt a) (natAbs_toInt_lt b)

/-- Equality of values and equality of operands differ for mixed pairs only. -/
theorem equal_eq (v w : Value) : equal v w = (same v w && !mixed v w) := by
  cases v with
  | int a =>
    cases w with
    | int b =>
      have hequal : equal (int a) (int b) = (a == b) := by simp [equal]
      rw [hequal, same_int, mixed]
      by_cases hab : a = b
      · simp [hab]
      · have hne : (a == b) = false := beq_eq_false_iff_ne.2 hab
        simp [bne, hne]
    | float y => simp [equal, mixed]
    | _ => simp [equal, same, mixed, asNumber?, BEq.beq]
  | float x =>
    cases w with
    | int b => simp [equal, mixed]
    | float y => simp [equal, same, mixed, asNumber?]
    | _ => simp [equal, same, mixed, asNumber?, BEq.beq]
  | _ => cases w <;> simp [same, mixed, asNumber?, BEq.beq]

theorem equal_iff {v w : Value} : equal v w = true ↔ same v w = true ∧ mixed v w = false := by
  simp [equal_eq]

theorem equalItems_iff {xs ys : List Value} :
    equalItems xs ys = true ↔ xs.length = ys.length ∧
      ∀ (i : Nat) x y, xs[i]? = some x → ys[i]? = some y →
        same x y = true ∧ mixed x y = false := by
  induction xs generalizing ys with
  | nil => cases ys <;> simp [equalItems]
  | cons x xs ih =>
    cases ys with
    | nil => simp [equalItems]
    | cons y ys =>
      rw [equalItems, Bool.and_eq_true, equal_iff, ih, List.length_cons, List.length_cons]
      constructor
      · rintro ⟨hhead, hlength, htail⟩
        refine ⟨by omega, ?_⟩
        intro i v w hv hw
        cases i with
        | zero => simp_all
        | succ i => exact htail i v w hv hw
      · rintro ⟨hlength, hall⟩
        refine ⟨hall 0 x y rfl rfl, by omega, ?_⟩
        intro i v w hv hw
        exact hall (i + 1) v w hv hw

theorem equalEntries_iff {m n : List (String × Value)} (hm : Ascending m) (hn : Ascending n) :
    equalEntries m n = true ↔ m.map Prod.fst = n.map Prod.fst ∧
      ∀ k v w, Entries.find? k m = some v → Entries.find? k n = some w →
        same v w = true ∧ mixed v w = false := by
  simp only [hm.find?_eq_some_iff, hn.find?_eq_some_iff]
  induction m generalizing n with
  | nil => cases n <;> simp [equalEntries]
  | cons e m ih =>
    obtain ⟨k, v⟩ := e
    obtain ⟨hfirst, hm⟩ := List.pairwise_cons.1 hm
    cases n with
    | nil => simp [equalEntries]
    | cons e n =>
      obtain ⟨l, w⟩ := e
      obtain ⟨hfirst', hn⟩ := List.pairwise_cons.1 hn
      -- a key stands in front of greater ones only, so an entry is paired once
      have hnew {a : Value} : (k, a) ∉ m := fun hmem => by
        have hlt := hfirst _ hmem
        simp at hlt
      have hnew' {a : Value} : (l, a) ∉ n := fun hmem => by
        have hlt := hfirst' _ hmem
        simp at hlt
      rw [equalEntries, Bool.and_eq_true, Bool.and_eq_true, equal_iff, ih hm hn, beq_iff_eq,
        List.map_cons, List.map_cons, List.cons.injEq]
      constructor
      · rintro ⟨⟨rfl, hhead⟩, hkeys, htail⟩
        refine ⟨⟨rfl, hkeys⟩, ?_⟩
        intro l a b ha hb
        rcases List.mem_cons.1 ha with ha | ha <;> rcases List.mem_cons.1 hb with hb | hb
        · simp_all
        · cases ha
          exact absurd hb hnew'
        · cases hb
          exact absurd ha hnew
        · exact htail l a b ha hb
      · rintro ⟨⟨rfl, hkeys⟩, hall⟩
        refine ⟨⟨rfl, hall k v w List.mem_cons_self List.mem_cons_self⟩, hkeys, ?_⟩
        intro l a b ha hb
        exact hall l a b (List.mem_cons_of_mem _ ha) (List.mem_cons_of_mem _ hb)

theorem compareBy_ints (op : Comparison) (a b : Int64) :
    compareBy op (int a) (int b) =
      .ok (op.admits (compare (nearest a.toInt) (nearest b.toInt))) := by
  have horder := numberOrder?_ofInt (natAbs_toInt_lt a) (natAbs_toInt_lt b)
  have hequal : same (int a) (int b) = (compare (nearest a.toInt) (nearest b.toInt)).isEq := by
    rw [same_int, Bool.eq_iff_iff]
    simp
  cases op with
  | eq => rw [compareBy, hequal, Comparison.admits]
  | ne =>
    rw [compareBy, hequal, Comparison.admits]
    cases compare (nearest a.toInt) (nearest b.toInt) <;> rfl
  | _ => simp [compareBy, asNumber?, horder]

end Value

/-! ## Paths -/

/-- The path to a part of what a path leads to. -/
def Expr.inside (path segment : String) : String := path ++ "." ++ segment

theorem Text.segments_append (separator : Char) (s t : List Char) :
    segments separator (s ++ separator :: t) = segments separator s ++ segments separator t := by
  induction s with
  | nil => simp [segments]
  | cons c s ih =>
    obtain ⟨part, parts, hparts⟩ := List.exists_cons_of_ne_nil (segments_ne_nil separator s)
    rw [List.cons_append, segments, segments, ih, hparts]
    by_cases hc : c = separator
    · simp [hc]
    · simp [hc]

theorem Text.segments_eq {separator : Char} {s : List Char} (h : separator ∉ s) :
    segments separator s = [s] := by
  induction s with
  | nil => simp [segments]
  | cons c s ih =>
    rw [List.mem_cons, not_or] at h
    rw [segments, if_neg (Ne.symm h.1), ih h.2]

theorem Value.descend_append {v w : Value} {segments : List (List Char)}
    (h : v.descend segments = .ok (some w)) (rest : List (List Char)) :
    v.descend (segments ++ rest) = w.descend rest := by
  induction segments generalizing v with
  | nil =>
    cases h
    rfl
  | cons segment segments ih =>
    rw [descend] at h
    rw [List.cons_append, descend]
    split at h
    · cases h
    · cases h
    · exact ih h

theorem Lookup.path?_inside {has : String → Bool} {get? : String → Option Value} {p s : String}
    {v : Value} (hp : (ofValues has get?).path? p = .ok (some v)) (hs : '.' ∉ s.toList) :
    (ofValues has get?).path? (Expr.inside p s) = v.part? s.toList := by
  have hsegments : Text.segments '.' (Expr.inside p s).toList =
      Text.segments '.' p.toList ++ [s.toList] := by
    rw [Expr.inside, String.toList_append, String.toList_append]
    show Text.segments '.' (p.toList ++ ['.'] ++ s.toList) = _
    rw [List.append_assoc, List.singleton_append, Text.segments_append, Text.segments_eq hs]
  obtain ⟨first, rest, hparts⟩ :=
    List.exists_cons_of_ne_nil (Text.segments_ne_nil '.' p.toList)
  simp only [ofValues, follow?, hsegments, hparts, List.cons_append] at hp ⊢
  split at hp
  · cases hp
  · next u hu =>
    rw [Value.descend_append hp, Value.descend]
    split
    · next hpart => exact hpart.symm
    · next hpart => exact hpart.symm
    · next hpart =>
      rw [hpart]
      rfl

theorem Value.index?_digitsOf {i : Nat} (h : i ≤ maxIndex) :
    index? (Decimal.digitsOf i) = some i := by
  obtain ⟨c, rest, hdigits, hc⟩ := Expr.exists_cons_digitsOf i
  have hall : (Decimal.digitsOf i).all Char.isDigit = true :=
    List.all_eq_true.2 fun d hd => Expr.isDigit_of_mem_digitsOf hd
  have hsign : c ≠ '+' := by
    rintro rfl
    simp at hc
  have hread := Expr.ofDigits_digitsOf i
  rw [hdigits] at hall hread ⊢
  unfold index?
  split
  · next heq => exact absurd (List.cons.inj heq).1 hsign
  · simp [hall, hread, h]

theorem Name.dot_not_mem_of_isSegment {segment : List Char} (h : isSegment segment = true) :
    '.' ∉ segment := by
  intro hmem
  have hinner := List.all_eq_true.1 (Bool.and_eq_true_iff.1 h).2 _ hmem
  cases hinner

theorem Expr.isOperandName_inside {p s : String} (hp : isOperandName p = true)
    (hs : Name.isSegment s.toList = true) : isOperandName (inside p s) = true := by
  have hchars : (inside p s).toList = p.toList ++ '.' :: s.toList := by
    simp [inside]
  have hvalid : Name.isValid (inside p s).toList = true := by
    have hp := (of_isOperandName hp).1
    unfold Name.isValid at hp ⊢
    rw [hchars, Text.segments_append, Text.segments_eq (Name.dot_not_mem_of_isSegment hs)]
    split at hp
    · cases hp
    · next head segments hsegments =>
      simp_all
  have hmem : '.' ∈ (inside p s).toList := by simp [hchars]
  -- a dot behind the first segment does not make it another word
  have hnot : ['n', 'o', 't', '.'].isPrefixOf (inside p s).toList = false := by
    simp only [isOperandName, Bool.and_eq_true, Bool.not_eq_true'] at hp
    obtain ⟨⟨-, hword⟩, hprefix⟩ := hp
    have hne : ['n', 'o', 't'] ≠ p.toList := by
      intro heq
      have hp : "not" = p := String.toList_inj.1 heq
      rw [← hp] at hword
      simp at hword
    rw [hchars]
    rcases hlist : p.toList with _ | ⟨a, _ | ⟨b, _ | ⟨c, _ | ⟨d, rest⟩⟩⟩⟩
    · simp [List.isPrefixOf]
    · simp [List.isPrefixOf]
    · simp [List.isPrefixOf]
    · rw [hlist] at hne
      simpa [List.isPrefixOf] using hne
    · rw [hlist] at hprefix
      simpa [List.isPrefixOf] using hprefix
  have hwords : ["null", "true", "false", "not"].contains (inside p s) = false := by
    rw [List.contains_eq_mem, decide_eq_false_iff_not]
    intro hword
    have hdots : ∀ word ∈ ["null", "true", "false", "not"], '.' ∉ word.toList := by decide
    exact hdots _ hword hmem
  rw [isOperandName, hvalid, hwords, hnot]
  rfl

/-- The path to an item of a list. -/
def Expr.item (path : String) (i : Nat) : String :=
  inside path (String.ofList (Decimal.digitsOf i))

theorem Expr.isSegment_digitsOf (i : Nat) : Name.isSegment (Decimal.digitsOf i) = true := by
  obtain ⟨c, rest, hdigits, -⟩ := exists_cons_digitsOf i
  have hall : (Decimal.digitsOf i).all Name.isInner = true := by
    rw [List.all_eq_true]
    intro d hd
    simp [Name.isInner, Char.isAlphanum, isDigit_of_mem_digitsOf hd]
  rw [Name.isSegment, hall, hdigits]
  rfl

theorem Expr.isOperandName_item {p : String} (hp : isOperandName p = true) (i : Nat) :
    isOperandName (item p i) = true := by
  refine isOperandName_inside hp ?_
  rw [String.toList_ofList]
  exact isSegment_digitsOf i

theorem Lookup.path?_item {has : String → Bool} {get? : String → Option Value} {p : String}
    {items : List Value} (hp : (ofValues has get?).path? p = .ok (some (.list items))) {i : Nat}
    (hi : i ≤ Value.maxIndex) : (ofValues has get?).path? (Expr.item p i) = .ok items[i]? := by
  rw [Expr.item, path?_inside hp, String.toList_ofList, Value.part?, Value.index?_digitsOf hi]
  rw [String.toList_ofList]
  exact Name.dot_not_mem_of_isSegment (Expr.isSegment_digitsOf i)

/-! ## Conditions -/

namespace Evaluator

open Rounding

/-- However it is spelled, an expression has a value in conditions. -/
def Gives (functions : Functions) (l : Lookup) (e : Expr) (v : Value) : Prop :=
  ∀ source, Expr.Spelled e.symbols source.toList →
    (stock functions).evaluate source l = .ok v

/-- The condition that two parameters are equal. -/
def equals (p q : String) : Expr := .compare .eq (.path p) (.path q)

theorem gives_of_eval (functions : Functions) {l : Lookup} {e : Expr} {v : Value}
    (hplain : e.isPlain = true) (hdepth : e.nesting ≤ Expr.maxNesting)
    (hv : e.eval (functions ++ Builtin.functions) l = .ok v) : Gives functions l e v := by
  intro source h
  simp [stock, ofFunctions, Expr.parse_eq hplain hdepth h, hv]

/-- What can be written has one value, since it can be spelled. -/
theorem Gives.unique {functions : Functions} {l : Lookup} {e : Expr} {v w : Value}
    (hv : Gives functions l e v) (hw : Gives functions l e w) (hplain : e.isPlain = true) :
    v = w := by
  have hspelled : Expr.Spelled e.symbols (String.ofList (Expr.spell e.symbols)).toList := by
    rw [String.toList_ofList]
    exact Expr.spelled_spell_symbols hplain
  have heq := (hv _ hspelled).symm.trans (hw _ hspelled)
  exact Except.ok.inj heq

section

variable {functions : Functions} {l : Lookup} {p q : String} {v w : Value}
  (hp : Expr.isOperandName p = true) (hq : Expr.isOperandName q = true)
  (hv : l.path? p = .ok (some v)) (hw : l.path? q = .ok (some w))

include hp hq hv hw

theorem gives_compare {op : Comparison} {b : Bool} (hb : v.compareBy op w = .ok b) :
    Gives functions l (.compare op (.path p) (.path q)) (.bool b) := by
  refine gives_of_eval functions (by simp [Expr.isPlain, hp, hq]) (Nat.zero_le _) ?_
  simp [Expr.eval, hv, hw, hb, bind, Except.bind, pure, Except.pure]

theorem gives_equals_iff :
    Gives functions l (equals p q) (.bool true) ↔ v.same w = true := by
  have hsame : Gives functions l (equals p q) (.bool (v.same w)) :=
    gives_compare hp hq hv hw rfl
  constructor
  · intro htrue
    have heq := hsame.unique htrue (by simp [equals, Expr.isPlain, hp, hq])
    exact Value.bool.inj heq
  · intro htrue
    rwa [htrue] at hsame

theorem gives_contains (hcontains : functions.lookup "SF.contains" = none) {b : Bool}
    (hb : Builtin.contains [v, w] = .ok (.bool b)) :
    Gives functions l (.call "SF.contains" [.path p, .path q]) (.bool b) := by
  have hname : Expr.isOperandName "SF.contains" = true := by decide
  have hlookup : (functions ++ Builtin.functions).lookup "SF.contains" =
      some Builtin.contains := by
    rw [List.lookup_append, hcontains, Option.none_or]
    rfl
  refine gives_of_eval functions (by simp [Expr.isPlain, Expr.arePlain, hname, hp, hq])
    (Nat.le_of_ble_eq_true rfl) ?_
  simp [Expr.eval, Expr.evalAll, hlookup, hv, hw, hb, bind, Except.bind, pure, Except.pure]

end

/-! ## Integers -/

/-- Conditions compare integers as the doubles that are nearest to them, and so does the test
whether a list contains one. Exactly those integers are misjudged that differ and have the same
nearest double; at least one of them has more than 53 binary digits. -/
theorem gives_integers (functions : Functions) {l : Lookup} {p q : String} {a b : Int64}
    (hp : Expr.isOperandName p = true) (hq : Expr.isOperandName q = true)
    (ha : l.path? p = .ok (some (.int a))) (hb : l.path? q = .ok (some (.int b))) :
    (∀ op : Comparison, Gives functions l (.compare op (.path p) (.path q))
      (.bool (op.admits (compare (nearest a.toInt) (nearest b.toInt))))) ∧
    ((∀ op : Comparison, op.admits (compare (nearest a.toInt) (nearest b.toInt)) =
        op.admits (compare a.toInt b.toInt)) ↔
      a = b ∨ nearest a.toInt ≠ nearest b.toInt) ∧
    (a.toInt.natAbs < 2 ^ 53 → b.toInt.natAbs < 2 ^ 53 →
      a = b ∨ nearest a.toInt ≠ nearest b.toInt) ∧
    ∀ r (xs : List Int64), Expr.isOperandName r = true →
      l.path? r = .ok (some (.list (xs.map .int))) → functions.lookup "SF.contains" = none →
      Gives functions l (.call "SF.contains" [.path r, .path q])
        (.bool (xs.any fun x => nearest x.toInt == nearest b.toInt)) ∧
      (xs.any (fun x => nearest x.toInt == nearest b.toInt) = xs.contains b ↔
        b ∈ xs ∨ ∀ x ∈ xs, nearest x.toInt ≠ nearest b.toInt) := by
  refine ⟨?_, ?_, ?_, ?_⟩
  · intro op
    exact gives_compare hp hq ha hb (Value.compareBy_ints op a b)
  · rw [← Int64.toInt_inj, ← compare_nearest]
    exact Comparison.admits_inj
  · intro hsmall hsmall'
    rw [nearest_of_natAbs_lt hsmall, nearest_of_natAbs_lt hsmall', ← Int64.toInt_inj]
    exact Classical.em _
  · intro r xs hr hxs hcontains
    constructor
    · refine gives_contains hr hq hxs hb hcontains ?_
      simp [Builtin.contains, List.any_map, Function.comp_def, Value.same_int]
    · by_cases hmem : b ∈ xs
      · have hany : xs.any (fun x => nearest x.toInt == nearest b.toInt) = true :=
          List.any_eq_true.2 ⟨b, hmem, by simp⟩
        simp [hany, hmem]
      · simp [hmem]

/-- Two ids behind the last one that a double tells from its neighbours, and two small ones. -/
theorem gives_integers_ids :
    let l := (Parameters.ofList [("a", .int 9007199254740992), ("b", .int 9007199254740993),
      ("ids", .list [.int 9007199254740992]), ("c", .int 1), ("d", .int 2)]).lookup
    Gives [] l (.compare .eq (.path "a") (.path "b")) (.bool true) ∧
      Gives [] l (.compare .lt (.path "a") (.path "b")) (.bool false) ∧
      Gives [] l (.call "SF.contains" [.path "ids", .path "b"]) (.bool true) ∧
      Gives [] l (.compare .lt (.path "c") (.path "d")) (.bool true) := by
  intro l
  have hnames : ∀ p ∈ ["a", "b", "c", "d", "ids"], Expr.isOperandName p = true := by
    decide
  have hlarge := gives_integers [] (l := l) (p := "a") (q := "b") (a := 9007199254740992)
    (b := 9007199254740993) (hnames _ (by simp)) (hnames _ (by simp)) rfl rfl
  have hsmall := gives_integers [] (l := l) (p := "c") (q := "d") (a := 1) (b := 2)
    (hnames _ (by simp)) (hnames _ (by simp)) rfl rfl
  have hids := hlarge.2.2.2 "ids" [9007199254740992] (hnames _ (by simp)) rfl rfl
  have horder := hsmall.2.1.2 (hsmall.2.2.1 (by decide) (by decide)) .lt
  refine ⟨hlarge.1 .eq, hlarge.1 .lt, hids.1, ?_⟩
  have hlt := hsmall.1 .lt
  rwa [horder] at hlt

/-- Comparisons of integers are not exact. -/
theorem not_forall_gives_integers :
    ¬ ∀ (functions : Functions) (l : Lookup) (p q : String) (a b : Int64),
      Expr.isOperandName p = true → Expr.isOperandName q = true →
      l.path? p = .ok (some (.int a)) → l.path? q = .ok (some (.int b)) →
      ∀ op : Comparison, Gives functions l (.compare op (.path p) (.path q))
        (.bool (op.admits (compare a.toInt b.toInt))) := by
  intro h
  let l := (Parameters.ofList [("a", .int 9007199254740992), ("b", .int 9007199254740993)]).lookup
  have hp : Expr.isOperandName "a" = true := by decide
  have hq : Expr.isOperandName "b" = true := by decide
  have hexact := h [] l "a" "b" 9007199254740992 9007199254740993 hp hq rfl rfl .eq
  have hfound : Gives [] l (.compare .eq (.path "a") (.path "b")) (.bool true) :=
    gives_compare hp hq rfl rfl
      (Value.compareBy_ints .eq 9007199254740992 9007199254740993)
  have heq := hexact.unique hfound (by simp [Expr.isPlain, hp, hq])
  have hfalse : Comparison.admits .eq
      (compare (9007199254740992 : Int64).toInt (9007199254740993 : Int64).toInt) = false := by
    decide
  cases heq.symm.trans (congrArg Value.bool hfalse)

/-! ## Lists and maps -/

theorem gives_items_iff {functions : Functions} {has : String → Bool}
    {get? : String → Option Value} {p q : String} (hp : Expr.isOperandName p = true)
    (hq : Expr.isOperandName q = true) {xs ys : List Value}
    (hxs : (Lookup.ofValues has get?).path? p = .ok (some (.list xs)))
    (hys : (Lookup.ofValues has get?).path? q = .ok (some (.list ys))) {i : Nat} {x y : Value}
    (hi : i ≤ Value.maxIndex) (hx : xs[i]? = some x) (hy : ys[i]? = some y) :
    Gives functions (.ofValues has get?) (equals (Expr.item p i) (Expr.item q i)) (.bool true) ↔
      x.same y = true := by
  apply gives_equals_iff
  · exact Expr.isOperandName_item hp i
  · exact Expr.isOperandName_item hq i
  · rw [Lookup.path?_item hxs hi, hx]
  · rw [Lookup.path?_item hys hi, hy]

/-- Two lists are equal to a condition if they have the same length, no two items at one place are
mixed, and the condition that they are equal holds of each two items. Two maps are equal if they
have the same keys, and no two entries at one key are mixed and all are equal as operands; this is
what the condition on two entries says if the key can be written. -/
theorem gives_collections (functions : Functions) {has : String → Bool}
    {get? : String → Option Value} {p q : String} (hp : Expr.isOperandName p = true)
    (hq : Expr.isOperandName q = true) :
    let l := Lookup.ofValues has get?
    (∀ xs ys, l.path? p = .ok (some (.list xs)) → l.path? q = .ok (some (.list ys)) →
      -- no list has more items than there are indices
      xs.length ≤ Value.maxIndex + 1 →
      ∃ b, Gives functions l (equals p q) (.bool b) ∧
        (b = true ↔ xs.length = ys.length ∧ ∀ i < xs.length,
          Gives functions l (equals (Expr.item p i) (Expr.item q i)) (.bool true) ∧
            ∀ x y, xs[i]? = some x → ys[i]? = some y → Value.mixed x y = false)) ∧
    ∀ m n, Ascending m → Ascending n →
      l.path? p = .ok (some (.map m)) → l.path? q = .ok (some (.map n)) →
      ∃ b, Gives functions l (equals p q) (.bool b) ∧
        (b = true ↔ m.map Prod.fst = n.map Prod.fst ∧ ∀ k v w,
          Entries.find? k m = some v → Entries.find? k n = some w →
            v.same w = true ∧ Value.mixed v w = false) ∧
        ∀ k v w, Name.isSegment k.toList = true →
          Entries.find? k m = some v → Entries.find? k n = some w →
            Gives functions l (equals (Expr.inside p k) (Expr.inside q k)) (.bool (v.same w)) := by
  intro l
  constructor
  · intro xs ys hxs hys hlength
    have hb : Gives functions l (equals p q) (.bool (Value.equalItems xs ys)) :=
      gives_compare hp hq hxs hys rfl
    refine ⟨_, hb, ?_⟩
    rw [Value.equalItems_iff]
    refine and_congr_right fun heq => ?_
    have hindex {i : Nat} (hi : i < xs.length) : i ≤ Value.maxIndex := by omega
    constructor
    · intro hall i hi
      have hx : xs[i]? = some xs[i] := List.getElem?_eq_getElem hi
      have hy : ys[i]? = some ys[i] := List.getElem?_eq_getElem (heq ▸ hi)
      refine ⟨(gives_items_iff hp hq hxs hys (hindex hi) hx hy).2 (hall i _ _ hx hy).1, ?_⟩
      intro x y hx hy
      exact (hall i x y hx hy).2
    · intro hall i x y hx hy
      obtain ⟨hi, -⟩ := List.getElem?_eq_some_iff.1 hx
      obtain ⟨hgives, hmixed⟩ := hall i hi
      exact ⟨(gives_items_iff hp hq hxs hys (hindex hi) hx hy).1 hgives, hmixed x y hx hy⟩
  · intro m n hm hn hpath hpath'
    have hb : Gives functions l (equals p q) (.bool (Value.equalEntries m n)) :=
      gives_compare hp hq hpath hpath' rfl
    refine ⟨_, hb, Value.equalEntries_iff hm hn, ?_⟩
    intro k v w hk hv hw
    have hdot := Name.dot_not_mem_of_isSegment hk
    have hleft : l.path? (Expr.inside p k) = .ok (some v) := by
      rw [Lookup.path?_inside hpath hdot]
      simp [Value.part?, hv]
    have hright : l.path? (Expr.inside q k) = .ok (some w) := by
      rw [Lookup.path?_inside hpath' hdot]
      simp [Value.part?, hw]
    exact gives_compare (Expr.isOperandName_inside hp hk) (Expr.isOperandName_inside hq hk)
      hleft hright rfl

/-- An integer and the float that is the same number, in lists and in maps. -/
theorem gives_collections_mixed :
    let l := (Parameters.ofList
      [("m", .map [("k", .int 1)]), ("n", .map [("k", .float 1)]),
        ("xs", .list [.int 1]), ("ys", .list [.float 1])]).lookup
    Gives [] l (equals "xs" "ys") (.bool false) ∧
      Gives [] l (equals (Expr.item "xs" 0) (Expr.item "ys" 0)) (.bool true) ∧
      Gives [] l (equals "m" "n") (.bool false) ∧
      Gives [] l (equals (Expr.inside "m" "k") (Expr.inside "n" "k")) (.bool true) := by
  intro l
  have hnames : ∀ p ∈ ["m", "n", "xs", "ys"], Expr.isOperandName p = true := by decide
  have hxs := hnames "xs" (by simp)
  have hys := hnames "ys" (by simp)
  have hm := hnames "m" (by simp)
  have hn := hnames "n" (by simp)
  have hsame : Value.same (.int 1) (.float 1) = true := by decide
  have hmixed : Value.mixed (.int 1) (.float 1) = true := rfl
  have hxs' : l.path? "xs" = .ok (some (.list [.int 1])) := rfl
  have hys' : l.path? "ys" = .ok (some (.list [.float 1])) := rfl
  have hm' : l.path? "m" = .ok (some (.map [("k", .int 1)])) := rfl
  have hn' : l.path? "n" = .ok (some (.map [("k", .float 1)])) := rfl
  have hitem : Gives [] l (equals (Expr.item "xs" 0) (Expr.item "ys" 0)) (.bool true) :=
    (gives_items_iff hxs hys hxs' hys' (Nat.zero_le _) rfl rfl).2 hsame
  obtain ⟨b, hlists, hb⟩ :=
    (gives_collections [] hxs hys).1 [.int 1] [.float 1] hxs' hys' (by decide)
  obtain ⟨c, hmaps, hc, hentries⟩ := (gives_collections [] hm hn).2 [("k", .int 1)]
    [("k", .float 1)] (List.pairwise_singleton _ _) (List.pairwise_singleton _ _) hm' hn'
  have hb' : b = false := by
    rw [Bool.eq_false_iff, Ne, hb]
    rintro ⟨-, hall⟩
    have hpure := (hall 0 (by decide)).2 (.int 1) (.float 1) rfl rfl
    simp [hmixed] at hpure
  have hc' : c = false := by
    rw [Bool.eq_false_iff, Ne, hc]
    rintro ⟨-, hall⟩
    have hpure := (hall "k" (.int 1) (.float 1) rfl rfl).2
    simp [hmixed] at hpure
  have hentry := hentries "k" (.int 1) (.float 1) (by decide) rfl rfl
  rw [hsame] at hentry
  exact ⟨hb' ▸ hlists, hitem, hc' ▸ hmaps, hentry⟩

/-- Equality of lists does not follow from that of their items. -/
theorem not_forall_gives_lists :
    ¬ ∀ (functions : Functions) (has : String → Bool) (get? : String → Option Value)
      (p q : String) (xs ys : List Value),
      Expr.isOperandName p = true → Expr.isOperandName q = true →
      (Lookup.ofValues has get?).path? p = .ok (some (.list xs)) →
      (Lookup.ofValues has get?).path? q = .ok (some (.list ys)) →
      xs.length ≤ Value.maxIndex + 1 →
      (Gives functions (.ofValues has get?) (equals p q) (.bool true) ↔
        xs.length = ys.length ∧ ∀ i < xs.length, Gives functions (.ofValues has get?)
          (equals (Expr.item p i) (Expr.item q i)) (.bool true)) := by
  intro h
  let parameters := Parameters.ofList [("xs", .list [.int 1]), ("ys", .list [.float 1])]
  have hxs : Expr.isOperandName "xs" = true := by decide
  have hys : Expr.isOperandName "ys" = true := by decide
  have hsame : Value.same (.int 1) (.float 1) = true := by decide
  have hdiffer : Value.same (.list [.int 1]) (.list [.float 1]) ≠ true := by decide
  have hiff := h [] parameters.contains parameters.get? "xs" "ys" [.int 1] [.float 1] hxs hys rfl
    rfl (by decide)
  refine hdiffer ((gives_equals_iff hxs hys rfl rfl).1 (hiff.2 ⟨rfl, ?_⟩))
  intro i hi
  obtain rfl : i = 0 := by simpa using hi
  exact (gives_items_iff hxs hys rfl rfl (Nat.zero_le _) rfl rfl).2 hsame

end Evaluator

end TwoWaySql
