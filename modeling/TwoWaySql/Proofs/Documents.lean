import TwoWaySql.Json.Reader
import TwoWaySql.Json.Writer
import TwoWaySql.Proofs.Reading

/-!
# Documents are read as they are written

What a document is written as is read as that document, as long as its numbers are integers
(`Json.isWhole`) and its arrays and objects are nested no deeper than readers go (`Json.nesting`).
Texts may hold any characters. This file

1. shows that the readers of texts and of numbers take what was written for them and leave what
   follows (`toList_writeString`, `Numeral.read?_digitsOf`);
2. says when a reader reads a text as a document (`Reads`): behind a number there must be nothing
   that could belong to it (`Ends`). If the items of an array and the members of an object are read,
   so are the array and the object (`arrayBody_written`, `objectBody_written`);
3. concludes by induction over the document that all of it is read back (`parse?_write`).

What is proved about data in documents does not hang on how documents are written. It is stated for
any format that reads them back (`Format.IsFaithful`), and the one that is defined here is such a
format (`Format.compact_isFaithful`).
-/

namespace TwoWaySql.Json

/-! ## Texts -/

theorem hexValue?_hexDigit {n : Nat} (h : n < 16) : hexValue? (hexDigit n) = some n := by
  have hall : ∀ n < 16, hexValue? (hexDigit n) = some n := by decide
  exact hall n h

/-- A control character by its number. -/
theorem numbered?_control {c : Char} (h : c.toNat < 0x20) (rest : List Char) :
    numbered? ('0' :: '0' :: hexDigit (c.toNat / 16) :: hexDigit (c.toNat % 16) :: rest) =
      some (c, rest) := by
  have hhigh := hexValue?_hexDigit (n := c.toNat / 16) (by omega)
  have hlow := hexValue?_hexDigit (n := c.toNat % 16) (by omega)
  have hzero : hexValue? '0' = some 0 := by decide
  have hvalue : ((0 * 16 + 0) * 16 + c.toNat / 16) * 16 + c.toNat % 16 = c.toNat := by omega
  have hhex : hex4? ('0' :: '0' :: hexDigit (c.toNat / 16) :: hexDigit (c.toNat % 16) :: rest) =
      some (c.toNat, rest) := by
    simp only [hex4?, hzero, hhigh, hlow, hvalue, Option.bind_eq_bind, Option.bind_some]
    rfl
  have hnohigh : ¬ (0xDC00 ≤ c.toNat) := by omega
  have hnolow : ¬ (0xD800 ≤ c.toNat) := by omega
  simp [numbered?, hhex, hnohigh, hnolow]

section

variable {steps : Nat} {c : Char} {s rest content behind : List Char}

theorem unquote?_escape (h : escape? s = some (c, rest))
    (hrest : unquote? steps rest = some (content, behind)) :
    unquote? (steps + 1) ('\\' :: s) = some (c :: content, behind) := by
  rw [unquote?, h]
  simp [hrest]

/-- A character is read as it is written, whether it is escaped or not. -/
theorem unquote?_escapedChar (c : Char) (hrest : unquote? steps rest = some (content, behind)) :
    unquote? (steps + 1) (escapedChar c ++ rest) = some (c :: content, behind) := by
  unfold escapedChar
  split
  · exact unquote?_escape rfl hrest
  · exact unquote?_escape rfl hrest
  · exact unquote?_escape rfl hrest
  · exact unquote?_escape rfl hrest
  · exact unquote?_escape rfl hrest
  · exact unquote?_escape rfl hrest
  · exact unquote?_escape rfl hrest
  · next hquote hbackslash _ _ _ _ _ =>
    split
    · next hcontrol => exact unquote?_escape (numbered?_control hcontrol rest) hrest
    · next hcontrol =>
      rw [List.singleton_append, unquote?, if_neg hcontrol]
      · simp [hrest]
      · exact hquote
      · exact hbackslash

theorem unquote?_quoted (h : s.length < steps) (rest : List Char) :
    unquote? steps (s.flatMap escapedChar ++ '"' :: rest) = some (s, rest) := by
  induction s generalizing steps with
  | nil =>
    cases steps with
    | zero => cases h
    | succ steps => rfl
  | cons c s ih =>
    cases steps with
    | zero => cases h
    | succ steps =>
      rw [List.flatMap_cons, List.append_assoc]
      exact unquote?_escapedChar c (ih (Nat.lt_of_succ_lt_succ h))

end

theorem length_le_flatMap_escapedChar (s : List Char) :
    s.length ≤ (s.flatMap escapedChar).length := by
  induction s with
  | nil => exact Nat.le_refl 0
  | cons c s ih =>
    have hpos : 0 < (escapedChar c).length := by
      unfold escapedChar
      split <;> try exact Nat.succ_pos _
      split <;> exact Nat.succ_pos _
    rw [List.flatMap_cons, List.length_append, List.length_cons]
    omega

/-- What is written for a text in quotes is read as the text from behind the opening quote. -/
theorem toList_writeString (s : String) (rest : List Char) :
    ∃ body, (writeString s).toList ++ rest = '"' :: body ∧
      unquote? body.length body = some (s.toList, rest) := by
  refine ⟨s.toList.flatMap escapedChar ++ '"' :: rest, ?_, ?_⟩
  · rw [writeString, String.toList_ofList, quote, List.cons_append, List.cons_append,
      List.append_assoc, List.singleton_append]
  · have hlength := length_le_flatMap_escapedChar s.toList
    refine unquote?_quoted ?_ rest
    rw [List.length_append, List.length_cons]
    omega

/-! ## Numbers -/

/-- Digits of a number other than zero do not start with a zero. -/
theorem head?_digitsOf_ne {n : Nat} (h : n ≠ 0) : (Decimal.digitsOf n).head? ≠ some '0' := by
  induction n using Nat.strongRecOn with
  | _ n ih =>
    unfold Decimal.digitsOf at ih ⊢
    by_cases hn : n < 10
    · have hall : ∀ n < 10, n ≠ 0 → n.digitChar ≠ '0' := by decide
      rw [Nat.toDigits_of_lt_base hn, List.head?_cons]
      exact fun heq => hall n hn h (Option.some.inj heq)
    · have hmore : 10 ≤ n := Nat.le_of_not_lt hn
      have hfront : Nat.toDigits 10 (n / 10) ≠ [] := Nat.toDigits_ne_nil
      rw [Nat.toDigits_of_base_le (by decide) hmore, List.head?_append,
        List.head?_eq_some_head hfront, Option.some_or, ← List.head?_eq_some_head hfront]
      exact ih (n / 10) (by omega) (by omega)

/-- Nothing at the start of the text could belong to a number in front of it. -/
def Ends (s : List Char) : Prop := ∀ c ∈ s.head?, c.isDigit = false ∧ c ∉ ['.', 'e', 'E']

theorem Ends.cons {c : Char} (h : c.isDigit = false ∧ c ∉ ['.', 'e', 'E']) (s : List Char) :
    Ends (c :: s) := by
  intro d hd
  cases hd
  exact h

theorem Ends.nil : Ends [] := nofun

namespace Numeral

theorem fraction?_of_ends {rest : List Char} (h : Ends rest) :
    read?.fraction? rest = some ([], rest) := by
  cases rest with
  | nil => rfl
  | cons c rest =>
    obtain ⟨-, hc⟩ := h c rfl
    unfold read?.fraction?
    split
    · next heq =>
      cases heq
      cases hc List.mem_cons_self
    · rfl

theorem exponent?_of_ends {rest : List Char} (h : Ends rest) :
    read?.exponent? rest = some (none, rest) := by
  cases rest with
  | nil => rfl
  | cons c rest =>
    obtain ⟨-, hc⟩ := h c rfl
    have he : (decide (c = 'e') || decide (c = 'E')) = false := by simp_all
    simp [read?.exponent?, he]

/-- Digits without a leading zero are read as they are. -/
theorem read?_digitsOf (n : Nat) {rest : List Char} (h : Ends rest) :
    read? (Decimal.digitsOf n ++ rest) = some (⟨false, Decimal.digitsOf n, [], none⟩, rest) ∧
    read? ('-' :: (Decimal.digitsOf n ++ rest)) =
      some (⟨true, Decimal.digitsOf n, [], none⟩, rest) := by
  have hstop : rest.head?.any Char.isDigit = false := by
    cases rest with
    | nil => rfl
    | cons c rest => simp [(h c rfl).1]
  obtain ⟨htake, hdrop⟩ := Expr.takeWhile_run
    (fun c (hc : c ∈ Decimal.digitsOf n) => Expr.isDigit_of_mem_digitsOf hc) hstop
  obtain ⟨c, digits, hcons, hdigit⟩ := Expr.exists_cons_digitsOf n
  have hzero : ((Decimal.digitsOf n).head? == some '0' && (Decimal.digitsOf n).length != 1) =
      false := by
    by_cases hn : n = 0
    · subst hn
      rfl
    · have hne := head?_digitsOf_ne hn
      simp [hne]
  have hempty : (Decimal.digitsOf n).isEmpty = false := by rw [hcons]; rfl
  constructor
  · unfold read?
    split
    next negative rest' hsign =>
    split at hsign
    · next tail heq =>
      -- a minus sign is no digit
      rw [hcons] at heq
      cases heq
      cases hdigit
    · cases hsign
      simp [htake, hdrop, hempty, hzero, fraction?_of_ends h, exponent?_of_ends h]
  · simp [read?, htake, hdrop, hempty, hzero, fraction?_of_ends h, exponent?_of_ends h]

end Numeral

/-- The document of a whole number. -/
theorem Numeral.json?_digitsOf {i : Int} (hlow : minInteger ≤ i) (hhigh : i ≤ maxInteger) :
    json? ⟨decide (i < 0), Decimal.digitsOf i.natAbs, [], none⟩ = some (.integer i) := by
  have hinteger : integer? ⟨decide (i < 0), Decimal.digitsOf i.natAbs, [], none⟩ = some i := by
    simp only [integer?, isWhole, Expr.ofDigits_digitsOf]
    by_cases hi : i < 0
    · have hvalue : -(i.natAbs : Int) = i := by omega
      have hzero : ((i.natAbs : Int) == 0) = false := by
        rw [beq_eq_false_iff_ne]
        omega
      simp only [hi, decide_true, if_true, hvalue, hzero, hlow, hhigh, List.isEmpty_nil,
        Option.isNone_none]
      rfl
    · have hvalue : (i.natAbs : Int) = i := by omega
      simp [hi, hvalue, hlow, hhigh]
  rw [json?, hinteger]

/-! ## Reading what is written -/

/-- A reader takes the text of a document and leaves what follows, if that could not belong to a
number. -/
def Reads (value : Reader Json) (s : List Char) (j : Json) : Prop :=
  ∀ rest, Ends rest → value (s ++ rest) = some (j, rest)

theorem skipBlanks_cons {c : Char} (h : c ∉ [' ', '\n', '\t', '\r']) (s : List Char) :
    skipBlanks (c :: s) = c :: s := by
  simp at h
  simp [skipBlanks, h]

/-- Where no word and no quote starts, a number is read. -/
theorem scalar_numeral {c : Char} (h : c ∉ ['n', 't', 'f', '"']) {s rest : List Char}
    {n : Numeral} {j : Json} (hread : Numeral.read? (c :: s) = some (n, rest))
    (hj : n.json? = some j) : scalar (c :: s) = some (j, rest) := by
  unfold scalar
  split
  · simp_all
  · simp_all
  · simp_all
  · simp_all
  · simp [hread, hj]

/-- A whole number starts with a minus sign or a digit. -/
theorem exists_cons_whole (i : Int) :
    ∃ c s, (Decimal.whole i).toList = c :: s ∧ (c = '-' ∨ c.isDigit = true) := by
  rw [Decimal.whole, String.toList_ofList]
  by_cases hi : i < 0
  · rw [if_pos hi]
    exact ⟨'-', _, rfl, .inl rfl⟩
  · rw [if_neg hi]
    obtain ⟨c, digits, hcons, hdigit⟩ := Expr.exists_cons_digitsOf i.natAbs
    exact ⟨c, digits, hcons, .inr hdigit⟩

theorem not_mem_of_starts {c : Char} (h : c = '-' ∨ c.isDigit = true) {marks : List Char}
    (hmarks : marks.all (fun d => d != '-' && !d.isDigit) = true) : c ∉ marks := by
  intro hmem
  have hc := List.all_eq_true.1 hmarks c hmem
  rw [Bool.and_eq_true, bne_iff_ne, Bool.not_eq_true'] at hc
  rcases h with h | h
  · exact hc.1 h
  · exact Bool.false_ne_true (hc.2.symm.trans h)

theorem reads_integer {i : Int} (hlow : minInteger ≤ i) (hhigh : i ≤ maxInteger) :
    Reads scalar (Decimal.whole i).toList (.integer i) := by
  intro rest hrest
  have hjson := Numeral.json?_digitsOf hlow hhigh
  have hread : Numeral.read? ((Decimal.whole i).toList ++ rest) =
      some (⟨decide (i < 0), Decimal.digitsOf i.natAbs, [], none⟩, rest) := by
    obtain ⟨hplain, hsigned⟩ := Numeral.read?_digitsOf i.natAbs hrest
    rw [Decimal.whole, String.toList_ofList]
    by_cases hi : i < 0
    · rw [if_pos hi, decide_eq_true hi]
      exact hsigned
    · rw [if_neg hi, decide_eq_false hi]
      exact hplain
  obtain ⟨c, s, hcons, hstart⟩ := exists_cons_whole i
  rw [hcons, List.cons_append] at hread ⊢
  exact scalar_numeral (not_mem_of_starts hstart rfl) hread hjson

theorem reads_string (s : String) : Reads scalar (writeString s).toList (.string s) := by
  intro rest _
  obtain ⟨body, hbody, hread⟩ := toList_writeString s rest
  rw [hbody]
  simp [scalar, hread]

/-- A document that is no array and no object is read at any depth. -/
theorem reads_of_scalar {s : List Char} {j : Json} (h : Reads scalar s j)
    (hhead : ∃ c rest, s = c :: rest ∧ c ∉ [' ', '\n', '\t', '\r', '[', '{']) (depth : Nat) :
    Reads (valueAt depth) s j := by
  intro rest hrest
  have hscalar := h rest hrest
  obtain ⟨c, s, rfl, hc⟩ := hhead
  have hblank : skipBlanks (c :: (s ++ rest)) = c :: (s ++ rest) :=
    skipBlanks_cons (by simp_all) _
  rw [List.cons_append] at hscalar ⊢
  cases depth with
  | zero => rw [valueAt, hblank, hscalar]
  | succ depth =>
    unfold valueAt
    rw [hblank]
    split
    · next heq => simp_all
    · next heq => simp_all
    · exact hscalar

/-! ## Arrays and objects -/

theorem toList_row_cons (text next : String) (texts : List String) :
    (",".intercalate (text :: next :: texts)).toList =
      text.toList ++ ',' :: (",".intercalate (next :: texts)).toList := by
  have hcomma : ",".toList = [','] := rfl
  rw [String.intercalate_cons_cons, String.toList_append, String.toList_append, hcomma,
    List.append_assoc, List.singleton_append]

/-- There are no more parts in a row than characters with the one that ends it. -/
theorem length_le_row (texts : List String) (mark : Char) (rest : List Char) :
    texts.length ≤ ((",".intercalate texts).toList ++ mark :: rest).length := by
  induction texts with
  | nil => exact Nat.zero_le _
  | cons text texts ih =>
    cases texts with
    | nil =>
      rw [List.length_append, List.length_cons]
      exact Nat.le_add_left_of_le (Nat.le_add_left 1 _)
    | cons next texts =>
      rw [toList_row_cons]
      simp only [List.length_append, List.length_cons] at ih ⊢
      omega

/-- A row starts with its first part. -/
theorem exists_row_cons (text : String) (texts : List String) :
    ∃ more, (",".intercalate (text :: texts)).toList = text.toList ++ more := by
  cases texts with
  | nil => exact ⟨[], by rw [String.intercalate_singleton, List.append_nil]⟩
  | cons next texts => exact ⟨_, toList_row_cons text next texts⟩

/-- What is written for a member. -/
def writeMember (e : String × Json) : String := writeString e.1 ++ ":" ++ write e.2

theorem writeItems_eq (items : List Json) : writeItems items = items.map write := by
  induction items with
  | nil => rfl
  | cons j items ih => rw [writeItems, ih, List.map_cons]

theorem writeMembers_eq (members : List (String × Json)) :
    writeMembers members = members.map writeMember := by
  induction members with
  | nil => rfl
  | cons e members ih => rw [writeMembers, ih, List.map_cons, writeMember]

section

variable {value : Reader Json}

theorem someItems_last {s rest : List Char} {j : Json} (h : value s = some (j, ']' :: rest))
    (steps : Nat) : someItems value (steps + 1) s = some ([j], rest) := by
  have hblank : skipBlanks (']' :: rest) = ']' :: rest := skipBlanks_cons (by decide) rest
  simp [someItems, h, hblank]

theorem someItems_cons {s rest behind : List Char} {j : Json} {items : List Json} {steps : Nat}
    (h : value s = some (j, ',' :: rest))
    (hrest : someItems value steps rest = some (items, behind)) :
    someItems value (steps + 1) s = some (j :: items, behind) := by
  have hblank : skipBlanks (',' :: rest) = ',' :: rest := skipBlanks_cons (by decide) rest
  simp [someItems, h, hblank, hrest]

/-- The items of an array are read one after the other. -/
theorem someItems_written {items : List Json} (hne : items ≠ [])
    (h : ∀ j ∈ items, Reads value (write j).toList j) {steps : Nat} (hsteps : items.length ≤ steps)
    (rest : List Char) :
    someItems value steps ((",".intercalate (items.map write)).toList ++ ']' :: rest) =
      some (items, rest) := by
  induction items generalizing steps with
  | nil => exact absurd rfl hne
  | cons j items ih =>
    obtain ⟨hj, hitems⟩ := List.forall_mem_cons.1 h
    cases steps with
    | zero => cases hsteps
    | succ steps =>
      cases items with
      | nil =>
        rw [List.map_singleton, String.intercalate_singleton]
        exact someItems_last (hj _ (.cons (by decide) rest)) steps
      | cons next more =>
        have hbehind := ih (List.cons_ne_nil next more) hitems (Nat.le_of_succ_le_succ hsteps)
        rw [List.map_cons, List.map_cons, toList_row_cons, List.append_assoc, List.cons_append,
          ← List.map_cons]
        exact someItems_cons (hj _ (.cons (by decide) _)) hbehind

/-- A member is read if its document is. -/
theorem someMembers_head {e : String × Json} (h : Reads value (write e.2).toList e.2)
    {rest : List Char} (hrest : Ends rest) :
    ∃ s body, (writeMember e).toList ++ rest = '"' :: s ∧
      unquote? s.length s = some (e.1.toList, ':' :: body) ∧ value body = some (e.2, rest) := by
  obtain ⟨s, hs, hread⟩ := toList_writeString e.1 (':' :: ((write e.2).toList ++ rest))
  refine ⟨s, _, ?_, hread, h rest hrest⟩
  have hcolon : ":".toList = [':'] := rfl
  rw [← hs, writeMember, String.toList_append, String.toList_append, hcolon, List.append_assoc,
    List.append_assoc, List.singleton_append]

theorem someMembers_last {e : String × Json} (h : Reads value (write e.2).toList e.2)
    (steps : Nat) (rest : List Char) :
    someMembers value (steps + 1) ((writeMember e).toList ++ '}' :: rest) = some ([e], rest) := by
  obtain ⟨s, body, hs, hname, hbody⟩ := someMembers_head h (.cons (c := '}') (by decide) rest)
  rw [hs, someMembers]
  have hquote : skipBlanks ('"' :: s) = '"' :: s := skipBlanks_cons (by decide) s
  have hcolon : skipBlanks (':' :: body) = ':' :: body := skipBlanks_cons (by decide) body
  have hbrace : skipBlanks ('}' :: rest) = '}' :: rest := skipBlanks_cons (by decide) rest
  simp [hquote, hname, hcolon, hbody, hbrace]

theorem someMembers_cons {e : String × Json} (h : Reads value (write e.2).toList e.2)
    {steps : Nat} {rest behind : List Char} {members : List (String × Json)}
    (hrest : someMembers value steps rest = some (members, behind)) :
    someMembers value (steps + 1) ((writeMember e).toList ++ ',' :: rest) =
      some (e :: members, behind) := by
  obtain ⟨s, body, hs, hname, hbody⟩ := someMembers_head h (.cons (c := ',') (by decide) rest)
  rw [hs, someMembers]
  have hquote : skipBlanks ('"' :: s) = '"' :: s := skipBlanks_cons (by decide) s
  have hcolon : skipBlanks (':' :: body) = ':' :: body := skipBlanks_cons (by decide) body
  have hcomma : skipBlanks (',' :: rest) = ',' :: rest := skipBlanks_cons (by decide) rest
  simp [hquote, hname, hcolon, hbody, hcomma, hrest]

/-- The members of an object are read one after the other. -/
theorem someMembers_written {members : List (String × Json)} (hne : members ≠ [])
    (h : ∀ e ∈ members, Reads value (write e.2).toList e.2) {steps : Nat}
    (hsteps : members.length ≤ steps) (rest : List Char) :
    someMembers value steps
        ((",".intercalate (members.map writeMember)).toList ++ '}' :: rest) =
      some (members, rest) := by
  induction members generalizing steps with
  | nil => exact absurd rfl hne
  | cons e members ih =>
    obtain ⟨he, hmembers⟩ := List.forall_mem_cons.1 h
    cases steps with
    | zero => cases hsteps
    | succ steps =>
      cases members with
      | nil =>
        rw [List.map_singleton, String.intercalate_singleton]
        exact someMembers_last he steps rest
      | cons next more =>
        have hbehind := ih (List.cons_ne_nil next more) hmembers (Nat.le_of_succ_le_succ hsteps)
        rw [List.map_cons, List.map_cons, toList_row_cons, List.append_assoc, List.cons_append,
          ← List.map_cons]
        exact someMembers_cons he hbehind

theorem arrayBody_written {items : List Json} (h : ∀ j ∈ items, Reads value (write j).toList j)
    (hhead : ∀ j ∈ items, ∃ c s, (write j).toList = c :: s ∧ c ∉ [' ', '\n', '\t', '\r', ']'])
    (rest : List Char) :
    arrayBody value ((",".intercalate (writeItems items)).toList ++ ']' :: rest) =
      some (array items, rest) := by
  rw [writeItems_eq]
  cases items with
  | nil => rfl
  | cons j items =>
    have hsteps := length_le_row ((j :: items).map write) ']' rest
    rw [List.length_map] at hsteps
    have hread := someItems_written (List.cons_ne_nil j items) h hsteps rest
    -- the first item does not start like the end of the array
    obtain ⟨c, s, hc, hstart⟩ := hhead j List.mem_cons_self
    obtain ⟨more, hmore⟩ := exists_row_cons (write j) (items.map write)
    rw [List.map_cons, hmore, hc, List.cons_append, List.cons_append] at hread ⊢
    rw [arrayBody, skipBlanks_cons (by simp_all)]
    split
    · next heq =>
      cases heq
      simp at hstart
    · rw [hread]
      rfl

theorem objectBody_written {members : List (String × Json)}
    (h : ∀ e ∈ members, Reads value (write e.2).toList e.2) (rest : List Char) :
    objectBody value ((",".intercalate (writeMembers members)).toList ++ '}' :: rest) =
      some (object members, rest) := by
  rw [writeMembers_eq]
  cases members with
  | nil => rfl
  | cons e members =>
    have hsteps := length_le_row ((e :: members).map writeMember) '}' rest
    rw [List.length_map] at hsteps
    have hread := someMembers_written (List.cons_ne_nil e members) h hsteps rest
    -- a member starts with a quote
    obtain ⟨more, hmore⟩ := exists_row_cons (writeMember e) (members.map writeMember)
    obtain ⟨body, hbody, -⟩ := toList_writeString e.1 (":".toList ++ (write e.2).toList)
    rw [List.map_cons, hmore, writeMember, String.toList_append, String.toList_append,
      List.append_assoc (writeString e.1).toList, hbody, List.cons_append,
      List.cons_append] at hread ⊢
    rw [objectBody, skipBlanks_cons (by decide)]
    split
    · next heq => cases heq
    · rw [hread]
      rfl

end

/-! ## Whole documents -/

mutual

/-- Whether all numbers in a document are integers that are kept apart from other numbers. -/
def isWhole : Json → Bool
  | null | bool _ | string _ => true
  | integer i => minInteger ≤ i && i ≤ maxInteger
  | real _ => false
  | array items => areWhole items
  | object members => holdWhole members

def areWhole : List Json → Bool
  | [] => true
  | j :: rest => isWhole j && areWhole rest

def holdWhole : List (String × Json) → Bool
  | [] => true
  | (_, j) :: rest => isWhole j && holdWhole rest

end

mutual

/-- How deep arrays and objects are nested in a document. -/
def nesting : Json → Nat
  | null | bool _ | string _ | integer _ | real _ => 0
  | array items => nestingItems items + 1
  | object members => nestingMembers members + 1

def nestingItems : List Json → Nat
  | [] => 0
  | j :: rest => max (nesting j) (nestingItems rest)

def nestingMembers : List (String × Json) → Nat
  | [] => 0
  | (_, j) :: rest => max (nesting j) (nestingMembers rest)

end

theorem areWhole_iff {items : List Json} :
    areWhole items = true ↔ ∀ j ∈ items, j.isWhole = true := by
  induction items with
  | nil => exact iff_of_true rfl (List.forall_mem_nil _)
  | cons j items ih => rw [areWhole, Bool.and_eq_true, ih, List.forall_mem_cons]

theorem holdWhole_iff {members : List (String × Json)} :
    holdWhole members = true ↔ ∀ e ∈ members, e.2.isWhole = true := by
  induction members with
  | nil => exact iff_of_true rfl (List.forall_mem_nil _)
  | cons e members ih =>
    obtain ⟨name, j⟩ := e
    rw [holdWhole, Bool.and_eq_true, ih, List.forall_mem_cons]

theorem nestingItems_le_iff {items : List Json} {depth : Nat} :
    nestingItems items ≤ depth ↔ ∀ j ∈ items, j.nesting ≤ depth := by
  induction items with
  | nil => exact iff_of_true (Nat.zero_le _) (List.forall_mem_nil _)
  | cons j items ih => rw [nestingItems, Nat.max_le, ih, List.forall_mem_cons]

theorem nestingMembers_le_iff {members : List (String × Json)} {depth : Nat} :
    nestingMembers members ≤ depth ↔ ∀ e ∈ members, e.2.nesting ≤ depth := by
  induction members with
  | nil => exact iff_of_true (Nat.zero_le _) (List.forall_mem_nil _)
  | cons e members ih =>
    obtain ⟨name, j⟩ := e
    rw [nestingMembers, Nat.max_le, ih, List.forall_mem_cons]

/-- No document starts with a blank or like the end of an array. -/
theorem exists_cons_write {j : Json} (h : j.isWhole = true) :
    ∃ c s, (write j).toList = c :: s ∧ c ∉ [' ', '\n', '\t', '\r', ']'] := by
  cases j with
  | null => exact ⟨'n', _, rfl, by decide⟩
  | bool b =>
    cases b with
    | false => exact ⟨'f', _, rfl, by decide⟩
    | true => exact ⟨'t', _, rfl, by decide⟩
  | integer i =>
    obtain ⟨c, s, hcons, hstart⟩ := exists_cons_whole i
    exact ⟨c, s, hcons, not_mem_of_starts hstart rfl⟩
  | real x => cases h
  | string s =>
    obtain ⟨body, hbody, -⟩ := toList_writeString s []
    rw [List.append_nil] at hbody
    exact ⟨'"', body, hbody, by decide⟩
  | array items =>
    exact ⟨'[', _, by rw [write, String.toList_append, String.toList_append]; rfl, by decide⟩
  | object members =>
    exact ⟨'{', _, by rw [write, String.toList_append, String.toList_append]; rfl, by decide⟩

theorem valueAt_array {depth : Nat} {items : List Json}
    (h : ∀ j ∈ items, Reads (valueAt depth) (write j).toList j)
    (hhead : ∀ j ∈ items, ∃ c s, (write j).toList = c :: s ∧ c ∉ [' ', '\n', '\t', '\r', ']']) :
    Reads (valueAt (depth + 1)) (write (array items)).toList (array items) := by
  intro rest _
  have htext : (write (array items)).toList ++ rest =
      '[' :: ((",".intercalate (writeItems items)).toList ++ ']' :: rest) := by
    rw [write, String.toList_append, String.toList_append, List.append_assoc, List.append_assoc]
    rfl
  rw [htext, valueAt, skipBlanks_cons (by decide)]
  exact arrayBody_written h hhead rest

theorem valueAt_object {depth : Nat} {members : List (String × Json)}
    (h : ∀ e ∈ members, Reads (valueAt depth) (write e.2).toList e.2) :
    Reads (valueAt (depth + 1)) (write (object members)).toList (object members) := by
  intro rest _
  have htext : (write (object members)).toList ++ rest =
      '{' :: ((",".intercalate (writeMembers members)).toList ++ '}' :: rest) := by
    rw [write, String.toList_append, String.toList_append, List.append_assoc, List.append_assoc]
    rfl
  rw [htext, valueAt, skipBlanks_cons (by decide)]
  exact objectBody_written h rest

mutual

/-- A document is read as it is written, at any depth that its nesting does not exceed. -/
theorem reads_write : ∀ (j : Json) {depth : Nat}, j.isWhole = true → j.nesting ≤ depth →
    Reads (valueAt depth) (write j).toList j
  | null, depth, _, _ => reads_of_scalar (fun rest _ => rfl) ⟨_, _, rfl, by decide⟩ depth
  | bool false, depth, _, _ => reads_of_scalar (fun rest _ => rfl) ⟨_, _, rfl, by decide⟩ depth
  | bool true, depth, _, _ => reads_of_scalar (fun rest _ => rfl) ⟨_, _, rfl, by decide⟩ depth
  | integer i, depth, h, _ => by
    rw [isWhole, Bool.and_eq_true, decide_eq_true_eq, decide_eq_true_eq] at h
    obtain ⟨c, s, hcons, hstart⟩ := exists_cons_whole i
    exact reads_of_scalar (reads_integer h.1 h.2)
      ⟨c, s, hcons, not_mem_of_starts hstart rfl⟩ depth
  | string s, depth, _, _ => by
    obtain ⟨body, hbody, -⟩ := toList_writeString s []
    rw [List.append_nil] at hbody
    exact reads_of_scalar (reads_string s) ⟨'"', body, hbody, by decide⟩ depth
  | array items, 0, _, hdepth => nomatch hdepth
  | array items, depth + 1, h, hdepth =>
    valueAt_array (reads_writeItems items h (Nat.le_of_succ_le_succ hdepth))
      fun j hj => exists_cons_write (areWhole_iff.1 h j hj)
  | object members, 0, _, hdepth => nomatch hdepth
  | object members, depth + 1, h, hdepth =>
    valueAt_object (reads_writeMembers members h (Nat.le_of_succ_le_succ hdepth))

theorem reads_writeItems : ∀ (items : List Json) {depth : Nat}, areWhole items = true →
    nestingItems items ≤ depth → ∀ j ∈ items, Reads (valueAt depth) (write j).toList j
  | [], _, _, _ => List.forall_mem_nil _
  | j :: rest, depth, h, hdepth => by
    rw [areWhole, Bool.and_eq_true] at h
    rw [nestingItems, Nat.max_le] at hdepth
    exact List.forall_mem_cons.2
      ⟨reads_write j h.1 hdepth.1, reads_writeItems rest h.2 hdepth.2⟩

theorem reads_writeMembers : ∀ (members : List (String × Json)) {depth : Nat},
    holdWhole members = true → nestingMembers members ≤ depth →
    ∀ e ∈ members, Reads (valueAt depth) (write e.2).toList e.2
  | [], _, _, _ => List.forall_mem_nil _
  | (name, j) :: rest, depth, h, hdepth => by
    rw [holdWhole, Bool.and_eq_true] at h
    rw [nestingMembers, Nat.max_le] at hdepth
    exact List.forall_mem_cons.2
      ⟨reads_write j h.1 hdepth.1, reads_writeMembers rest h.2 hdepth.2⟩

end

/-- Writing a document and reading the text gives the document back. -/
theorem parse?_write {j : Json} (h : j.isWhole = true) (hdepth : j.nesting ≤ maxNesting) :
    parse? (write j) = some j := by
  have hread := reads_write j h hdepth [] .nil
  rw [List.append_nil] at hread
  rw [parse?, hread]
  rfl

/-! ## Formats -/

/-- A way to write documents as texts and to read texts as documents. -/
structure Format where
  write : Json → String
  parse? : String → Option Json

/-- A format gives back every document that holds no numbers but integers and is not nested too
deep. Floats are left out: the double that is read may differ from the one that was written. -/
structure Format.IsFaithful (f : Format) : Prop where
  parse?_write : ∀ {j : Json}, j.isWhole = true → j.nesting ≤ maxNesting →
    f.parse? (f.write j) = some j

/-- Documents without blanks. -/
def Format.compact : Format := ⟨Json.write, Json.parse?⟩

theorem Format.compact_isFaithful : compact.IsFaithful := ⟨Json.parse?_write⟩

end TwoWaySql.Json
