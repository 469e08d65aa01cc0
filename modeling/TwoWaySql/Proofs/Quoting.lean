import Mathlib.Algebra.Ring.Nat
import TwoWaySql.Value

/-!
# Quoted values

What SQL reads in the literal of a value. The strings of the value should be the contents of the
literals in it, and the text around them should not depend on the strings (`Value.KeepsQuotes`).
Strings outside of maps are quoted, but a map is written as plain text, with its keys and strings
as they are. This file

1. reads a text by the quotes in it (`QuotePart.read`), and counts the quotes of what was read
   (`QuotePart.count_of_read`);
2. lists the texts that a value holds by how they are written (`Value.held`), and counts the quotes
   in the literal of the value by that list (`Value.count_literal`);
3. reads the literal of a value whose maps hold no string and no quote in a key
   (`Value.read_literal`);
4. concludes that the strings of exactly these values stay inside their quotes, whatever they are
   (`Value.keepsQuotes_iff`): for any other value, the number of quotes is wrong for some strings.
-/

namespace TwoWaySql

/-! ## Reading by quotes -/

/-- A part of a text: a character outside of literals, or a literal with its content, in which a
doubled quote counts once. -/
inductive QuotePart where
  | outside (c : Char)
  | literal (content : String)
  deriving DecidableEq, Repr

namespace QuotePart

/-- The parts of a text, or of the rest of a text inside a literal that holds `inside?` so far. A
literal ends at its first quote that is not doubled, and a text that ends inside a literal has no
parts. -/
def read : (inside? : Option (List Char)) → List Char → Option (List QuotePart)
  | none, [] => some []
  | some _, [] => none
  | none, '\'' :: rest => read (some []) rest
  | none, c :: rest => (read none rest).map (.outside c :: ·)
  | some held, '\'' :: '\'' :: rest => read (some (held ++ ['\''])) rest
  | some held, '\'' :: rest => (read none rest).map (.literal (String.ofList held) :: ·)
  | some held, c :: rest => read (some (held ++ [c])) rest

def content? : QuotePart → Option String
  | outside _ => none
  | literal content => some content

/-- The contents of the literals. -/
def contents (parts : List QuotePart) : List String := parts.filterMap content?

/-- The text outside of the literals, with a gap for each of them. -/
def around (parts : List QuotePart) : List (Option Char) :=
  parts.map fun
    | outside c => some c
    | literal _ => none

theorem contents_append (parts more : List QuotePart) :
    contents (parts ++ more) = contents parts ++ contents more :=
  List.filterMap_append

theorem around_append (parts more : List QuotePart) :
    around (parts ++ more) = around parts ++ around more :=
  List.map_append

theorem contents_outside (s : List Char) : contents (s.map outside) = [] := by
  rw [contents, List.filterMap_map]
  exact List.filterMap_eq_nil_iff.2 fun _ _ => rfl

/-- Text without quotes is read character by character. -/
theorem read_outside {s : List Char} (h : '\'' ∉ s) (rest : List Char) :
    read none (s ++ rest) = (read none rest).map (s.map outside ++ ·) := by
  induction s with
  | nil => simp
  | cons c more ih =>
    rw [List.mem_cons, not_or] at h
    obtain ⟨hc, hmore⟩ := h
    rw [List.cons_append, read, ih hmore, Option.map_map]
    · rfl
    · exact Ne.symm hc

/-- A literal is read to its end, if no further quote follows it. -/
theorem read_inside (held s : List Char) {rest : List Char} (h : rest.head? ≠ some '\'') :
    read (some held) (s.flatMap (fun c => if c = '\'' then ['\'', '\''] else [c]) ++ '\'' :: rest) =
      (read none rest).map (.literal (String.ofList (held ++ s)) :: ·) := by
  induction s generalizing held with
  | nil =>
    rw [List.flatMap_nil, List.nil_append, List.append_nil, read]
    rintro after rfl
    exact h rfl
  | cons c more ih =>
    rw [List.flatMap_cons, List.append_assoc]
    by_cases hc : c = '\''
    · subst hc
      rw [if_pos rfl, List.cons_append, List.cons_append, List.nil_append, read, ih,
        List.append_assoc]
      rfl
    · rw [if_neg hc, List.cons_append, List.nil_append, read, ih, List.append_assoc]
      · rfl
      · exact fun _ heq _ => hc heq
      · exact hc

/-- The quotes that a literal with the given content takes. -/
def cost (content : String) : Nat := 2 + 2 * content.toList.count '\''

/-- The quotes in front of the rest of a text inside a literal. -/
def opened : Option (List Char) → Nat
  | none => 0
  | some held => 1 + 2 * held.count '\''

/-- Every quote of a text that is read stands at an end of a literal or is one of a pair. -/
theorem count_of_read {inside? : Option (List Char)} {s : List Char} {parts : List QuotePart}
    (h : read inside? s = some parts) :
    opened inside? + s.count '\'' = ((contents parts).map cost).sum := by
  fun_induction read inside? s generalizing parts with
  | case1 =>
    cases h
    rfl
  | case2 => cases h
  | case3 rest ih =>
    rw [← ih h, List.count_cons_self]
    simp only [opened, List.count_nil]
    omega
  | case4 c rest hc ih =>
    obtain ⟨more, hmore, rfl⟩ := Option.map_eq_some_iff.1 h
    have hcount := ih hmore
    rwa [List.count_cons_of_ne hc]
  | case5 held rest ih =>
    rw [← ih h, List.count_cons_self, List.count_cons_self]
    simp only [opened, List.count_append, List.count_singleton_self]
    omega
  | case6 held rest hquote ih =>
    obtain ⟨more, hmore, rfl⟩ := Option.map_eq_some_iff.1 h
    have hcount := ih hmore
    rw [opened, Nat.zero_add] at hcount
    show _ = cost (String.ofList held) + ((contents more).map cost).sum
    rw [← hcount, List.count_cons_self]
    simp only [opened, cost, String.toList_ofList]
    omega
  | case7 held c rest hpair hc ih =>
    have hheld : (held ++ [c]).count '\'' = held.count '\'' := by
      rw [List.count_append, List.count_singleton, if_neg (by simpa using hc), Nat.add_zero]
    rw [← ih h, List.count_cons_of_ne hc, opened, opened, hheld]

end QuotePart

/-! ## Numbers without quotes -/

namespace Decimal

theorem quote_not_mem_digitsOf (n : Nat) : '\'' ∉ digitsOf n := by
  intro h
  have hdigit := Nat.isDigit_of_mem_toDigits (by decide) (by decide) h
  cases hdigit

theorem quote_not_mem_whole (n : Int) : '\'' ∉ (whole n).toList := by
  have hdigits := quote_not_mem_digitsOf n.natAbs
  unfold whole
  split <;> simp [hdigits]

theorem quote_not_mem_layPoint {digits : List Char} (h : '\'' ∉ digits) (pointZero : Bool)
    (whole : Int) : '\'' ∉ layPoint pointZero digits whole := by
  have htake (n : Nat) : '\'' ∉ digits.take n := fun hmem => h (List.mem_of_mem_take hmem)
  have hdrop (n : Nat) : '\'' ∉ digits.drop n := fun hmem => h (List.mem_of_mem_drop hmem)
  unfold layPoint
  split
  · simp [h]
  · simp only
    split
    · cases pointZero <;> simp [h]
    · simp [htake, hdrop]

end Decimal

/-- A float in a statement has no exponent, so its text is digits, a point and a sign, or a word. -/
theorem Value.quote_not_mem_float (x : Float) : '\'' ∉ (floatLayout.write x).toList := by
  have hmagnitude : '\'' ∉ floatLayout.writeMagnitude x := by
    unfold Decimal.Layout.writeMagnitude
    simp only
    split
    · decide
    · split
      · decide
      · exact Decimal.quote_not_mem_layPoint (Decimal.quote_not_mem_digitsOf _) _ _
  unfold Decimal.Layout.write
  split
  · decide
  · split <;> simp [hmagnitude]

/-! ## The texts that a value holds -/

/-- A text that a value holds, by how the literal of the value writes it. -/
inductive Held where
  /-- A string outside of maps, which is quoted. -/
  | quoted (s : String)
  /-- A string in a map, which is written as it is. -/
  | bare (s : String)
  /-- A key of a map, which is written as it is. -/
  | key (k : String)

namespace Held

def string? : Held → Option String
  | quoted s | bare s => some s
  | key _ => none

/-- Whether the text cannot change what is quoted and what is not: it is quoted, or it is a key
without quotes. -/
def isSafe : Held → Bool
  | quoted _ => true
  | bare _ => false
  | key k => !k.toList.contains '\''

/-- How many quotes the text takes. -/
def quotes : Held → Nat
  | quoted s => QuotePart.cost s
  | bare s => s.toList.count '\''
  | key k => k.toList.count '\''

def isBare : Held → Bool
  | bare _ => true
  | _ => false

/-- How many quotes the text takes if it is a key. -/
def keyQuotes : Held → Nat
  | key k => k.toList.count '\''
  | _ => 0

/-- The text with the content `c` in place of that of a string. -/
def fill (c : String) : Held → Held
  | quoted _ => quoted c
  | bare _ => bare c
  | key k => key k

end Held

namespace Value

mutual

/-- The texts that a value holds, in order; `inMap` says whether the value stands in a map. -/
def held (inMap : Bool) : Value → List Held
  | string s => [if inMap then .bare s else .quoted s]
  | list items => heldItems inMap items
  | map entries => heldEntries entries
  | _ => []

def heldItems (inMap : Bool) : List Value → List Held
  | [] => []
  | v :: rest => held inMap v ++ heldItems inMap rest

def heldEntries : List (String × Value) → List Held
  | [] => []
  | (k, v) :: rest => .key k :: (held true v ++ heldEntries rest)

end

/-- The strings in a value, in order. Keys of maps are no strings of the value. -/
def strings (v : Value) : List String := (v.held false).filterMap Held.string?

mutual

/-- The value with one content for all its strings. -/
def fill (c : String) : Value → Value
  | string _ => string c
  | list items => list (fillItems c items)
  | map entries => map (fillEntries c entries)
  | v => v

def fillItems (c : String) : List Value → List Value
  | [] => []
  | v :: rest => fill c v :: fillItems c rest

def fillEntries (c : String) : List (String × Value) → List (String × Value)
  | [] => []
  | (k, v) :: rest => (k, fill c v) :: fillEntries c rest

end

/-- Two values differ in the contents of their strings alone. -/
def SameShape (v w : Value) : Prop := v.fill "" = w.fill ""

/-- Whatever strings stand in its places for strings, the literal of the value ends outside of
literals, its literals hold the strings in order, and the text around them is the same. -/
def KeepsQuotes (v : Value) : Prop :=
  ∃ around, ∀ w : Value, w.SameShape v →
    ∃ parts, QuotePart.read none w.literal.toList = some parts ∧
      QuotePart.contents parts = w.strings ∧ QuotePart.around parts = around

/-! ### Filling in strings -/

mutual

theorem held_fill (inMap : Bool) (c : String) :
    ∀ v : Value, (v.fill c).held inMap = (v.held inMap).map (Held.fill c)
  | null | bool _ | int _ | float _ => rfl
  | string _ => by cases inMap <;> rfl
  | list items => heldItems_fill inMap c items
  | map entries => heldEntries_fill c entries

theorem heldItems_fill (inMap : Bool) (c : String) :
    ∀ items : List Value, heldItems inMap (fillItems c items) =
      (heldItems inMap items).map (Held.fill c)
  | [] => rfl
  | v :: rest => by
    rw [fillItems, heldItems, heldItems, held_fill inMap c v, heldItems_fill inMap c rest,
      List.map_append]

theorem heldEntries_fill (c : String) :
    ∀ entries : List (String × Value), heldEntries (fillEntries c entries) =
      (heldEntries entries).map (Held.fill c)
  | [] => rfl
  | (k, v) :: rest => by
    rw [fillEntries, heldEntries, heldEntries, held_fill true c v, heldEntries_fill c rest,
      List.map_cons, List.map_append]
    rfl

end

mutual

theorem fill_fill (b c : String) : ∀ v : Value, (v.fill b).fill c = v.fill c
  | null | bool _ | int _ | float _ | string _ => rfl
  | list items => congrArg list (fillItems_fill b c items)
  | map entries => congrArg map (fillEntries_fill b c entries)

theorem fillItems_fill (b c : String) :
    ∀ items : List Value, fillItems c (fillItems b items) = fillItems c items
  | [] => rfl
  | v :: rest => by
    rw [fillItems, fillItems, fillItems, fill_fill b c v, fillItems_fill b c rest]

theorem fillEntries_fill (b c : String) :
    ∀ entries : List (String × Value), fillEntries c (fillEntries b entries) = fillEntries c entries
  | [] => rfl
  | (k, v) :: rest => by
    rw [fillEntries, fillEntries, fillEntries, fill_fill b c v, fillEntries_fill b c rest]

end

theorem sameShape_fill (c : String) (v : Value) : (v.fill c).SameShape v := fill_fill c "" v

mutual

/-- A value in a map that holds no unsafe text holds no string to fill in. -/
theorem fill_of_isSafe (c : String) :
    ∀ v : Value, (∀ h ∈ v.held true, h.isSafe = true) → v.fill c = v
  | null, _ | bool _, _ | int _, _ | float _, _ => rfl
  | string _, h => by cases h _ List.mem_cons_self
  | list items, h => congrArg list (fillItems_of_isSafe c items h)
  | map entries, h => congrArg map (fillEntries_of_isSafe c entries h)

theorem fillItems_of_isSafe (c : String) :
    ∀ items : List Value, (∀ h ∈ heldItems true items, h.isSafe = true) →
      fillItems c items = items
  | [], _ => rfl
  | v :: rest, h => by
    rw [heldItems, List.forall_mem_append] at h
    rw [fillItems, fill_of_isSafe c v h.1, fillItems_of_isSafe c rest h.2]

theorem fillEntries_of_isSafe (c : String) :
    ∀ entries : List (String × Value), (∀ h ∈ heldEntries entries, h.isSafe = true) →
      fillEntries c entries = entries
  | [], _ => rfl
  | (k, v) :: rest, h => by
    rw [heldEntries, List.forall_mem_cons, List.forall_mem_append] at h
    rw [fillEntries, fill_of_isSafe c v h.2.1, fillEntries_of_isSafe c rest h.2.2]

end

/-! ### Counting quotes -/

theorem count_quoteLiteral (s : List Char) :
    (quoteLiteral s).count '\'' = 2 + 2 * s.count '\'' := by
  have hdoubled : (s.flatMap fun c => if c = '\'' then ['\'', '\''] else [c]).count '\'' =
      2 * s.count '\'' := by
    induction s with
    | nil => rfl
    | cons c rest ih =>
      rw [List.flatMap_cons, List.count_append, ih]
      by_cases hc : c = '\''
      · subst hc
        rw [if_pos rfl, List.count_cons_self, List.count_singleton_self, List.count_cons_self]
        omega
      · rw [if_neg hc, List.count_cons_of_ne hc, List.count_cons_of_ne hc, List.count_nil,
          Nat.zero_add]
  rw [quoteLiteral, List.cons_append, List.count_cons_self, List.count_append, hdoubled,
    List.count_singleton_self]
  omega

theorem toList_listed_cons_cons (text next : String) (more : List String) :
    (Text.listed (text :: next :: more)).toList =
      text.toList ++ ([',', ' '] ++ (Text.listed (next :: more)).toList) := by
  rw [Text.listed, String.intercalate_cons_cons, String.toList_append, String.toList_append,
    List.append_assoc]
  rfl

/-- There are no quotes between the parts of a list. -/
theorem count_listed :
    ∀ texts : List String, (Text.listed texts).toList.count '\'' =
      (texts.map fun t => t.toList.count '\'').sum
  | [] => rfl
  | [text] => rfl
  | text :: next :: more => by
    have hseparator : [',', ' '].count '\'' = 0 := by decide
    rw [toList_listed_cons_cons, List.count_append, List.count_append, hseparator, Nat.zero_add,
      count_listed (next :: more)]
    rfl

mutual

theorem count_text :
    ∀ v : Value, v.text.toList.count '\'' = ((v.held true).map Held.quotes).sum
  | null => rfl
  | bool true | bool false => rfl
  | int i => List.count_eq_zero.2 (Decimal.quote_not_mem_whole i.toInt)
  | float x => List.count_eq_zero.2 (quote_not_mem_float x)
  | string s => rfl
  | list items => (count_listed _).trans (count_itemTexts items)
  | map entries => by
    have hbrace (c : String) (hc : '\'' ∉ c.toList) : c.toList.count '\'' = 0 :=
      List.count_eq_zero.2 hc
    rw [text, held, String.toList_append, String.toList_append, List.count_append,
      List.count_append, count_listed, count_entryTexts, hbrace _ (by decide),
      hbrace _ (by decide), Nat.zero_add, Nat.add_zero]

theorem count_itemTexts :
    ∀ items : List Value, ((itemTexts items).map fun t => t.toList.count '\'').sum =
      ((heldItems true items).map Held.quotes).sum
  | [] => rfl
  | v :: rest => by
    rw [itemTexts, heldItems, List.map_cons, List.sum_cons, List.map_append, List.sum_append,
      count_text v, count_itemTexts rest]

theorem count_entryTexts :
    ∀ entries : List (String × Value),
      ((entryTexts entries).map fun t => t.toList.count '\'').sum =
        ((heldEntries entries).map Held.quotes).sum
  | [] => rfl
  | (k, v) :: rest => by
    have hcolon : (": " : String).toList.count '\'' = 0 := by decide
    rw [entryTexts, heldEntries, List.map_cons, List.sum_cons, List.map_cons, List.sum_cons,
      List.map_append, List.sum_append, String.toList_append, String.toList_append,
      List.count_append, List.count_append, hcolon, count_text v, count_entryTexts rest]
    show _ = k.toList.count '\'' + _
    omega

end

mutual

/-- The quotes in the literal of a value are those of the texts that it holds. -/
theorem count_literal :
    ∀ v : Value, v.literal.toList.count '\'' = ((v.held false).map Held.quotes).sum
  | null => rfl
  | bool true | bool false => rfl
  | int i => List.count_eq_zero.2 (Decimal.quote_not_mem_whole i.toInt)
  | float x => List.count_eq_zero.2 (quote_not_mem_float x)
  | string s => by
    rw [literal, String.toList_ofList, count_quoteLiteral]
    rfl
  | list items => (count_listed _).trans (count_itemLiterals items)
  | map entries => count_text (map entries)

theorem count_itemLiterals :
    ∀ items : List Value, ((itemLiterals items).map fun t => t.toList.count '\'').sum =
      ((heldItems false items).map Held.quotes).sum
  | [] => rfl
  | v :: rest => by
    rw [itemLiterals, heldItems, List.map_cons, List.sum_cons, List.map_append, List.sum_append,
      count_literal v, count_itemLiterals rest]

end

/-! ### Reading literals -/

mutual

/-- The parts of the literal of a value, if no map in it takes part in the quoting. -/
def quoteParts : Value → List QuotePart
  | string s => [.literal s]
  | list items => itemParts items
  | v => v.text.toList.map .outside

def itemParts : List Value → List QuotePart
  | [] => []
  | [v] => quoteParts v
  | v :: next :: rest =>
    quoteParts v ++ ([',', ' '].map .outside ++ itemParts (next :: rest))

end

mutual

theorem quoted_not_mem_held (s : String) : ∀ v : Value, Held.quoted s ∉ v.held true
  | null | bool _ | int _ | float _ => List.not_mem_nil
  | string _ => by simp [held]
  | list items => quoted_not_mem_heldItems s items
  | map entries => quoted_not_mem_heldEntries s entries

theorem quoted_not_mem_heldItems (s : String) :
    ∀ items : List Value, Held.quoted s ∉ heldItems true items
  | [] => List.not_mem_nil
  | v :: rest => by
    rw [heldItems, List.mem_append, not_or]
    exact ⟨quoted_not_mem_held s v, quoted_not_mem_heldItems s rest⟩

theorem quoted_not_mem_heldEntries (s : String) :
    ∀ entries : List (String × Value), Held.quoted s ∉ heldEntries entries
  | [] => List.not_mem_nil
  | (k, v) :: rest => by
    rw [heldEntries, List.mem_cons, List.mem_append, not_or, not_or]
    exact ⟨nofun, quoted_not_mem_held s v, quoted_not_mem_heldEntries s rest⟩

end

/-- The safe texts that a value in a map holds are keys without quotes. -/
theorem exists_key {v : Value} (hsafe : ∀ t ∈ v.held true, t.isSafe = true) {t : Held}
    (ht : t ∈ v.held true) : ∃ k, t = .key k ∧ '\'' ∉ k.toList := by
  have hkey := hsafe t ht
  cases t with
  | quoted s => exact absurd ht (quoted_not_mem_held s v)
  | bare s => cases hkey
  | key k =>
    rw [Held.isSafe, Bool.not_eq_true', List.contains_eq_mem, decide_eq_false_iff_not] at hkey
    exact ⟨k, rfl, hkey⟩

/-- The plain text of a value that holds safe texts alone has no quotes. -/
theorem quote_not_mem_text {v : Value} (hsafe : ∀ t ∈ v.held true, t.isSafe = true) :
    '\'' ∉ v.text.toList := by
  rw [← List.count_eq_zero, count_text, List.sum_eq_zero_iff_forall_eq_nat]
  intro n hn
  obtain ⟨t, ht, rfl⟩ := List.mem_map.1 hn
  obtain ⟨k, rfl, hk⟩ := exists_key hsafe ht
  exact List.count_eq_zero.2 hk

theorem strings_of_isSafe {v : Value} (hsafe : ∀ t ∈ v.held true, t.isSafe = true) :
    (v.held true).filterMap Held.string? = [] := by
  rw [List.filterMap_eq_nil_iff]
  intro t ht
  obtain ⟨k, rfl, -⟩ := exists_key hsafe ht
  rfl

mutual

/-- A value that holds safe texts alone is read part by part, in front of a text that does not go on
with a quote. -/
theorem read_literal :
    ∀ v : Value, (∀ t ∈ v.held false, t.isSafe = true) → ∀ rest : List Char,
      rest.head? ≠ some '\'' →
        QuotePart.read none (v.literal.toList ++ rest) =
          (QuotePart.read none rest).map (v.quoteParts ++ ·)
  | null, _, rest, _ => QuotePart.read_outside (by decide) rest
  | bool true, _, rest, _ | bool false, _, rest, _ => QuotePart.read_outside (by decide) rest
  | int i, _, rest, _ => QuotePart.read_outside (Decimal.quote_not_mem_whole i.toInt) rest
  | float x, _, rest, _ => QuotePart.read_outside (quote_not_mem_float x) rest
  | string s, _, rest, hrest => by
    have hinside := QuotePart.read_inside [] s.toList hrest
    rw [List.nil_append, String.ofList_toList] at hinside
    rw [literal, String.toList_ofList, quoteLiteral, List.append_assoc, List.cons_append,
      QuotePart.read]
    exact hinside
  | list items, hsafe, rest, hrest => read_itemLiterals items hsafe rest hrest
  | map entries, hsafe, rest, _ =>
    QuotePart.read_outside (quote_not_mem_text (v := map entries) hsafe) rest

theorem read_itemLiterals :
    ∀ items : List Value, (∀ t ∈ heldItems false items, t.isSafe = true) → ∀ rest : List Char,
      rest.head? ≠ some '\'' →
        QuotePart.read none ((Text.listed (itemLiterals items)).toList ++ rest) =
          (QuotePart.read none rest).map (itemParts items ++ ·)
  | [], _, rest, _ => QuotePart.read_outside (s := []) List.not_mem_nil rest
  | [v], hsafe, rest, hrest => by
    rw [heldItems, heldItems, List.append_nil] at hsafe
    exact read_literal v hsafe rest hrest
  | v :: next :: more, hsafe, rest, hrest => by
    rw [heldItems, List.forall_mem_append] at hsafe
    have hlist := read_itemLiterals (next :: more) hsafe.2 rest hrest
    rw [itemLiterals] at hlist
    rw [itemLiterals, itemLiterals, toList_listed_cons_cons, List.append_assoc, List.append_assoc,
      read_literal v hsafe.1 _ (by simp), QuotePart.read_outside (by decide), hlist, itemParts,
      Option.map_map, Option.map_map]
    simp [Function.comp_def]

end

mutual

theorem contents_quoteParts :
    ∀ v : Value, (∀ t ∈ v.held false, t.isSafe = true) →
      QuotePart.contents v.quoteParts = (v.held false).filterMap Held.string?
  | null, _ | bool _, _ | int _, _ | float _, _ => QuotePart.contents_outside _
  | string _, _ => rfl
  | list items, hsafe => contents_itemParts items hsafe
  | map entries, hsafe =>
    (QuotePart.contents_outside _).trans (strings_of_isSafe (v := map entries) hsafe).symm

theorem contents_itemParts :
    ∀ items : List Value, (∀ t ∈ heldItems false items, t.isSafe = true) →
      QuotePart.contents (itemParts items) = (heldItems false items).filterMap Held.string?
  | [], _ => rfl
  | [v], hsafe => by
    rw [heldItems, heldItems, List.append_nil] at hsafe ⊢
    exact contents_quoteParts v hsafe
  | v :: next :: more, hsafe => by
    rw [heldItems, List.forall_mem_append] at hsafe
    rw [itemParts, QuotePart.contents_append, QuotePart.contents_append,
      QuotePart.contents_outside, List.nil_append, contents_quoteParts v hsafe.1,
      contents_itemParts (next :: more) hsafe.2, ← List.filterMap_append]
    rfl

end

mutual

/-- What stands around the strings of a value does not depend on them. -/
theorem around_quoteParts (c : String) :
    ∀ v : Value, (∀ t ∈ v.held false, t.isSafe = true) →
      QuotePart.around (v.fill c).quoteParts = QuotePart.around v.quoteParts
  | null, _ | bool _, _ | int _, _ | float _, _ | string _, _ => rfl
  | list items, hsafe => around_itemParts c items hsafe
  | map entries, hsafe =>
    congrArg (fun v => QuotePart.around (quoteParts v)) (fill_of_isSafe c (map entries) hsafe)

theorem around_itemParts (c : String) :
    ∀ items : List Value, (∀ t ∈ heldItems false items, t.isSafe = true) →
      QuotePart.around (itemParts (fillItems c items)) = QuotePart.around (itemParts items)
  | [], _ => rfl
  | [v], hsafe => by
    rw [heldItems, heldItems, List.append_nil] at hsafe
    exact around_quoteParts c v hsafe
  | v :: next :: more, hsafe => by
    rw [heldItems, List.forall_mem_append] at hsafe
    have hmore := around_itemParts c (next :: more) hsafe.2
    rw [fillItems] at hmore
    rw [fillItems, fillItems, itemParts, itemParts, QuotePart.around_append,
      QuotePart.around_append, around_quoteParts c v hsafe.1, hmore, QuotePart.around_append,
      QuotePart.around_append]

end

/-! ### Which values keep their quotes -/

/-- No map in the value holds a string, and no key of a map has a quote. -/
def HoldsSafe (v : Value) : Prop := ∀ t ∈ v.held false, t.isSafe = true

theorem HoldsSafe.of_sameShape {v w : Value} (hsafe : v.HoldsSafe) (h : w.SameShape v) :
    w.HoldsSafe := by
  have hfill : (w.held false).map (Held.fill "") = (v.held false).map (Held.fill "") := by
    rw [← held_fill, ← held_fill, show w.fill "" = v.fill "" from h]
  have hkept (t : Held) : (t.fill "").isSafe = t.isSafe := by cases t <;> rfl
  intro t ht
  have hmem : t.fill "" ∈ (v.held false).map (Held.fill "") := hfill ▸ List.mem_map_of_mem ht
  obtain ⟨u, hu, heq⟩ := List.mem_map.1 hmem
  rw [← hkept t, ← heq, hkept u]
  exact hsafe u hu

/-- The quotes of filled texts, against those that their strings take where they are quoted: a
string in a map lacks the quotes around it and one of each pair, and a key adds its own. -/
theorem sum_quotes_fill (c : String) (texts : List Held) :
    ((texts.map (Held.fill c)).map Held.quotes).sum +
        (2 + c.toList.count '\'') * texts.countP Held.isBare =
      (((texts.map (Held.fill c)).filterMap Held.string?).map QuotePart.cost).sum +
        (texts.map Held.keyQuotes).sum := by
  induction texts with
  | nil => rfl
  | cons t rest ih =>
    cases t <;>
    · simp only [List.map_cons, List.sum_cons, List.countP_cons, List.filterMap_cons, Held.fill,
        Held.quotes, Held.isBare, Held.keyQuotes, Held.string?, QuotePart.cost, Bool.false_eq_true,
        if_true, if_false, Nat.mul_add, Nat.mul_one, Nat.add_zero]
      omega

/-- If the literal of a value keeps its strings, then the texts that it holds take as many quotes as
its strings need, whatever they are. -/
theorem KeepsQuotes.mul_countP_isBare {v : Value} (h : v.KeepsQuotes) (c : String) :
    (2 + c.toList.count '\'') * (v.held false).countP Held.isBare =
      ((v.held false).map Held.keyQuotes).sum := by
  obtain ⟨_, hkeeps⟩ := h
  obtain ⟨parts, hread, hcontents, -⟩ := hkeeps (v.fill c) (sameShape_fill c v)
  have hcount := QuotePart.count_of_read hread
  have hsum := sum_quotes_fill c (v.held false)
  rw [QuotePart.opened, Nat.zero_add, hcontents, strings, count_literal, held_fill] at hcount
  omega

/-- The strings of a value stay inside the quotes of its literal, whatever they are, exactly if no
map in the value holds a string and no key of a map has a quote. -/
theorem keepsQuotes_iff (v : Value) : v.KeepsQuotes ↔ v.HoldsSafe := by
  constructor
  · intro h
    -- a string with no quote and one with a quote need different numbers of them
    have hnone := h.mul_countP_isBare ""
    have hone := h.mul_countP_isBare "'"
    rw [show "".toList.count '\'' = 0 from rfl] at hnone
    rw [show "'".toList.count '\'' = 1 from rfl] at hone
    have hbare : (v.held false).countP Held.isBare = 0 := by omega
    have hkeys : ((v.held false).map Held.keyQuotes).sum = 0 := by omega
    rw [List.countP_eq_zero] at hbare
    rw [List.sum_eq_zero_iff_forall_eq_nat] at hkeys
    intro t ht
    cases t with
    | quoted s => rfl
    | bare s => exact absurd rfl (hbare _ ht)
    | key k =>
      have hk : k.toList.count '\'' = 0 := hkeys _ (List.mem_map_of_mem ht)
      rw [List.count_eq_zero] at hk
      rw [Held.isSafe, List.contains_eq_mem, decide_eq_false hk]
      rfl
  · intro hsafe
    refine ⟨QuotePart.around v.quoteParts, fun w hw => ?_⟩
    have hsafe' := hsafe.of_sameShape hw
    refine ⟨w.quoteParts, ?_, contents_quoteParts w hsafe', ?_⟩
    · have hread := read_literal w hsafe' [] nofun
      rw [List.append_nil] at hread
      rw [hread]
      exact congrArg some (List.append_nil _)
    · rw [← around_quoteParts "" w hsafe', ← around_quoteParts "" v hsafe,
        show w.fill "" = v.fill "" from hw]

/-- A string in a map is written without quotes, so its own quote starts a literal. -/
theorem not_forall_keepsQuotes : ¬ ∀ v : Value, v.KeepsQuotes := by
  intro h
  obtain ⟨_, hkeeps⟩ := h (map [("name", string "O'Brien")])
  obtain ⟨parts, hread, -⟩ := hkeeps _ rfl
  cases hread

end Value

end TwoWaySql
