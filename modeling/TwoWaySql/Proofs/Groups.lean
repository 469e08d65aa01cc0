import Mathlib.Data.List.Induction
import Mathlib.Data.List.Infix
import TwoWaySql.Proofs.Dummies

/-!
# Groups as dummy values

A dummy value that starts with a parenthesis goes on to the parenthesis that closes it. This file

1. counts the parentheses of a text outside its literals (`Text.depth`), and shows that a text that
   starts with a parenthesis has a part that is closed for the first time at its end, or stays open
   throughout (`Text.isGroup_or_staysOpen`);
2. shows that the counter of the reader is that count, for as long as the group is open
   (`Dummy.skipGroup_run`): one character changes the one as it changes the other;
3. concludes what a scan makes of a bound name in front of a parenthesis (`Token.scan_group`).
-/

namespace TwoWaySql

/-! ## Parentheses outside literals -/

namespace Text

/-- The characters of a text that stand outside literals, without the quotes. `inside` says whether
the text starts inside a literal. -/
def outside : (inside : Bool) → List Char → List Char
  | _, [] => []
  | inside, c :: rest =>
    if c = '\'' then outside (!inside) rest
    else if inside then outside true rest
    else c :: outside false rest

/-- Whether a text ends inside a literal: each quote opens one or closes the one that is open. -/
def endsInside (inside : Bool) (s : List Char) : Bool := inside ^^ s.count '\'' % 2 == 1

/-- How many more parentheses a text opens than it closes, outside its literals. -/
def depth (inside : Bool) (s : List Char) : Int :=
  (outside inside s).count '(' - (outside inside s).count ')'

/-- Each parenthesis outside a literal is closed, and none is closed before it is opened. -/
def Balanced (s : List Char) : Prop :=
  depth false s = 0 ∧ ∀ front, front <+: s → 0 ≤ depth false front

theorem endsInside_cons (inside : Bool) (c : Char) (s : List Char) :
    endsInside inside (c :: s) = endsInside (inside ^^ c == '\'') s := by
  by_cases hc : c = '\''
  · subst hc
    rw [endsInside, endsInside, List.count_cons_self]
    rcases Nat.mod_two_eq_zero_or_one (s.count '\'') with h | h <;>
      cases inside <;> simp [h, Nat.add_mod]
  · rw [endsInside, endsInside, List.count_cons_of_ne hc, beq_eq_false_iff_ne.2 hc, Bool.xor_false]

theorem outside_append (inside : Bool) (s t : List Char) :
    outside inside (s ++ t) = outside inside s ++ outside (endsInside inside s) t := by
  induction s generalizing inside with
  | nil => simp [outside, endsInside]
  | cons c rest ih =>
    rw [List.cons_append, outside, outside, endsInside_cons]
    by_cases hc : c = '\''
    · rw [if_pos hc, if_pos hc, ih, hc]
      simp
    · rw [if_neg hc, if_neg hc, beq_eq_false_iff_ne.2 hc, Bool.xor_false]
      cases inside with
      | true => exact ih true
      | false => exact congrArg (c :: ·) (ih false)

theorem depth_append (inside : Bool) (s t : List Char) :
    depth inside (s ++ t) = depth inside s + depth (endsInside inside s) t := by
  rw [depth, depth, depth, outside_append, List.count_append, List.count_append]
  omega

@[simp]
theorem depth_nil (inside : Bool) : depth inside [] = 0 := rfl

/-- Inside a literal a character does not count. -/
theorem depth_inside (c : Char) : depth true [c] = 0 := by
  by_cases hc : c = '\'' <;> simp [depth, outside, hc]

theorem depth_outside (c : Char) :
    depth false [c] = if c = '(' then 1 else if c = ')' then -1 else 0 := by
  by_cases hquote : c = '\''
  · subst hquote
    rfl
  · by_cases hopen : c = '('
    · subst hopen
      rfl
    · by_cases hclose : c = ')'
      · subst hclose
        rfl
      · simp [depth, outside, hquote, hopen, hclose]

theorem neg_one_le_depth (inside : Bool) (c : Char) : -1 ≤ depth inside [c] := by
  cases inside with
  | true =>
    rw [depth_inside]
    decide
  | false =>
    rw [depth_outside]
    split
    · decide
    · split <;> decide

/-- Parentheses stay open through the whole text, from its first character on. -/
def StaysOpen (s : List Char) : Prop := ∀ part, part <+: s → part ≠ [] → 0 < depth false part

/-- The text is closed at its end and not before. -/
structure IsGroup (s : List Char) : Prop where
  nonempty : s ≠ []
  closed : depth false s = 0
  opened : ∀ part, part <+: s → part ≠ [] → part ≠ s → 0 < depth false part

theorem IsGroup.balanced {s : List Char} (h : IsGroup s) : Balanced s := by
  refine ⟨h.closed, fun front hfront => ?_⟩
  by_cases hnil : front = []
  · exact hnil ▸ Int.le_refl 0
  · by_cases hall : front = s
    · exact hall ▸ Int.le_of_eq h.closed.symm
    · exact Int.le_of_lt (h.opened front hfront hnil hall)

/-- No part of a text that starts it and is closed is shorter than a group that starts it. -/
theorem IsGroup.length_le {group part s : List Char} (h : IsGroup group) (hgroup : group <+: s)
    (hpart : part <+: s) (hne : part ≠ []) (hclosed : depth false part = 0) :
    group.length ≤ part.length := by
  by_contra hshorter
  have hlength : part.length ≤ group.length := by omega
  have hinner := List.prefix_of_prefix_length_le hpart hgroup hlength
  have hproper : part ≠ group := by
    rintro rfl
    exact hshorter (Nat.le_refl _)
  have hopen := h.opened part hinner hne hproper
  omega

/-- A text that starts with a parenthesis starts with a group or stays open. As a character counts
for one at most, nothing can be closed too often without being closed first. -/
theorem isGroup_or_staysOpen {s : List Char} (h : s.head? = some '(') :
    (∃ group, group <+: s ∧ IsGroup group) ∨ StaysOpen s := by
  induction s using List.reverseRecOn with
  | nil => cases h
  | append_singleton s c ih =>
    by_cases hnil : s = []
    · subst hnil
      obtain rfl : c = '(' := Option.some.inj h
      right
      intro part hpart hne
      rcases List.prefix_concat_iff.1 hpart with rfl | hpart
      · decide
      · exact absurd (List.prefix_nil.1 hpart) hne
    · have hhead : s.head? = some '(' := by
        obtain ⟨first, rest, rfl⟩ := List.exists_cons_of_ne_nil hnil
        exact h
      rcases ih hhead with ⟨group, hgroup, hclosed⟩ | hopen
      · exact .inl ⟨group, hgroup.trans (List.prefix_append s [c]), hclosed⟩
      · have hbefore := hopen s List.prefix_rfl hnil
        have hstep := neg_one_le_depth (endsInside false s) c
        have hdepth := depth_append false s [c]
        have hparts : ∀ part, part <+: s ++ [c] → part ≠ [] → part ≠ s ++ [c] →
            0 < depth false part := by
          intro part hpart hne hproper
          exact hopen part ((List.prefix_concat_iff.1 hpart).resolve_left hproper) hne
        by_cases hzero : depth false (s ++ [c]) = 0
        · have hgroup : IsGroup (s ++ [c]) := ⟨by simp, hzero, hparts⟩
          exact .inl ⟨s ++ [c], List.prefix_rfl, hgroup⟩
        · right
          intro part hpart hne
          by_cases hall : part = s ++ [c]
          · rw [hall]
            omega
          · exact hparts part hpart hne hall

theorem head?_of_initial {front s : List Char} {c : Char} (hfront : front <+: s) (hne : front ≠ [])
    (hs : s.head? = some c) : front.head? = some c := by
  obtain ⟨rest, rfl⟩ := hfront
  rwa [List.head?_append_of_ne_nil _ hne] at hs

/-- As long as no part is closed, parentheses stay open. -/
theorem staysOpen_of_not_closed {front s : List Char} (hs : s.head? = some '(')
    (hfront : front <+: s)
    (hclosed : ∀ part, part <+: front → part ≠ [] → depth false part ≠ 0) : StaysOpen front := by
  by_cases hnil : front = []
  · rw [hnil]
    intro part hpart hne
    exact absurd (List.prefix_nil.1 hpart) hne
  · rcases isGroup_or_staysOpen (head?_of_initial hfront hnil hs) with
      ⟨group, hgroup, hisGroup⟩ | hopen
    · exact absurd hisGroup.closed (hclosed group hgroup hisGroup.nonempty)
    · exact hopen

/-- The last character of a group closes its first one, outside of literals. -/
theorem IsGroup.exists_concat {group : List Char} (h : IsGroup group)
    (hhead : group.head? = some '(') :
    ∃ front, group = front ++ [')'] ∧ StaysOpen front ∧ depth false front = 1 ∧
      endsInside false front = false := by
  obtain ⟨front, c, hgroup⟩ := (List.eq_nil_or_concat group).resolve_left h.nonempty
  rw [List.concat_eq_append] at hgroup
  subst hgroup
  have hne : front ≠ [] := by
    rintro rfl
    obtain rfl : c = '(' := Option.some.inj hhead
    exact absurd h.closed (by decide)
  have hopen : StaysOpen front := fun part hpart hpart' => by
    refine h.opened part (hpart.trans (List.prefix_append front [c])) hpart' ?_
    rintro rfl
    have hlength := hpart.length_le
    rw [List.length_append] at hlength
    exact Nat.not_succ_le_self front.length hlength
  have hbefore := hopen front List.prefix_rfl hne
  have hclosed := h.closed
  rw [depth_append] at hclosed
  cases hinside : endsInside false front with
  | true =>
    rw [hinside, depth_inside] at hclosed
    omega
  | false =>
    rw [hinside, depth_outside] at hclosed
    by_cases hc : c = ')'
    · subst hc
      refine ⟨front, rfl, hopen, ?_, hinside⟩
      rw [if_neg (by decide), if_pos rfl] at hclosed
      omega
    · rw [if_neg hc] at hclosed
      split at hclosed <;> omega

end Text

/-! ## The reader of groups -/

namespace Dummy

open Text (depth endsInside StaysOpen IsGroup)

/-- Where the literal starts that is open behind a text, if one is. -/
def openQuote (quote : Option Position) (position : Position) : List Char → Option Position
  | [] => quote
  | c :: rest =>
    openQuote (if c = '\'' then (if quote.isSome then none else some position) else quote)
      (position.next c) rest

theorem isSome_openQuote (quote : Option Position) (position : Position) (s : List Char) :
    (openQuote quote position s).isSome = endsInside quote.isSome s := by
  induction s generalizing quote position with
  | nil => simp [openQuote, endsInside]
  | cons c rest ih =>
    rw [openQuote, ih, Text.endsInside_cons]
    by_cases hc : c = '\''
    · cases quote <;> simp [hc]
    · rw [if_neg hc, beq_eq_false_iff_ne.2 hc, Bool.xor_false]

/-- A literal that is open behind a text starts at the last quote of the text, and what is in front
of that quote is complete. -/
theorem openQuote_eq_some {quote : Option Position} {position start : Position} {s : List Char}
    (h : openQuote quote position s = some start) :
    (quote = some start ∧ '\'' ∉ s) ∨
      ∃ before behind, s = before ++ '\'' :: behind ∧ endsInside quote.isSome before = false ∧
        '\'' ∉ behind ∧ start = position.after before := by
  induction s generalizing quote position with
  | nil => exact .inl ⟨h, List.not_mem_nil⟩
  | cons c rest ih =>
    rcases ih h with ⟨hquote, hrest⟩ | ⟨before, behind, rfl, hbefore, hbehind, rfl⟩
    · by_cases hc : c = '\''
      · subst hc
        cases quote with
        | some inner => cases hquote
        | none => exact .inr ⟨[], rest, rfl, rfl, hrest, (Option.some.inj hquote).symm⟩
      · rw [if_neg hc] at hquote
        refine .inl ⟨hquote, ?_⟩
        simp [hrest, Ne.symm hc]
    · refine .inr ⟨c :: before, behind, rfl, ?_, hbehind, rfl⟩
      rw [← hbefore, Text.endsInside_cons]
      by_cases hc : c = '\''
      · cases quote <;> simp [hc]
      · rw [if_neg hc, beq_eq_false_iff_ne.2 hc, Bool.xor_false]

/-- Inside a literal only a quote changes what the reader keeps. -/
theorem skipGroup_inside (counter : Nat) (start position : Position) (c : Char)
    (rest : List Char) :
    skipGroup counter (some start) position (c :: rest) =
      (skipGroup counter (openQuote (some start) position [c]) (position.next c) rest).map
        (Prod.map (c :: ·) id) := rfl

theorem skipGroup_outside (counter : Nat) (position : Position) (c : Char) (rest : List Char) :
    let onwards (counter : Nat) :=
      (skipGroup counter (openQuote none position [c]) (position.next c) rest).map
        (Prod.map (c :: ·) id)
    skipGroup counter none position (c :: rest) =
      if c = '(' then onwards (counter + 1)
      else if c = ')' then if counter ≤ 1 then .ok ([c], rest) else onwards (counter - 1)
      else onwards counter := by
  intro onwards
  unfold skipGroup
  by_cases hc : c = '\''
  · subst hc
    rfl
  · have hquote : openQuote none position [c] = none := by
      rw [openQuote, if_neg hc]
      rfl
    simp only [onwards, hquote, if_neg hc]
    rfl

/-- While the group stays open, one character changes the counter as it changes the depth. -/
theorem skipGroup_step {counter : Nat} {quote : Option Position} {position : Position} {c : Char}
    (h : 0 < counter + depth quote.isSome [c]) (rest : List Char) :
    skipGroup counter quote position (c :: rest) =
      (skipGroup (counter + depth quote.isSome [c]).toNat (openQuote quote position [c])
        (position.next c) rest).map (Prod.map (c :: ·) id) := by
  cases quote with
  | some start =>
    rw [Option.isSome_some, Text.depth_inside, Int.add_zero, Int.toNat_natCast]
    exact skipGroup_inside counter start position c rest
  | none =>
    rw [Option.isSome_none, Text.depth_outside] at h ⊢
    rw [skipGroup_outside]
    split
    · rfl
    · next hopen =>
      rw [if_neg hopen] at h
      split
      · next hclose =>
        rw [if_pos hclose] at h
        have hcounter : ¬ counter ≤ 1 := by omega
        have hless : (counter + (-1 : Int)).toNat = counter - 1 := by omega
        rw [if_neg hcounter, hless]
      · rw [Int.add_zero, Int.toNat_natCast]

/-- While a group stays open, the reader takes what is in front of it, and its counter is the depth
there. -/
theorem skipGroup_run {counter : Nat} {quote : Option Position} {front : List Char}
    (h : ∀ part, part <+: front → part ≠ [] → 0 < counter + depth quote.isSome part)
    (position : Position) (rest : List Char) :
    skipGroup counter quote position (front ++ rest) =
      (skipGroup (counter + depth quote.isSome front).toNat (openQuote quote position front)
        (position.after front) rest).map (Prod.map (front ++ ·) id) := by
  induction front generalizing counter quote position with
  | nil =>
    rw [Text.depth_nil, Int.add_zero, Int.toNat_natCast, List.nil_append]
    show _ = (skipGroup counter quote position rest).map (Prod.map id id)
    rw [Prod.map_id]
    cases skipGroup counter quote position rest <;> rfl
  | cons c front ih =>
    have hfirst := h [c] (List.prefix_append [c] front) (List.cons_ne_nil c [])
    let next := (counter + depth quote.isSome [c]).toNat
    have hnext : (next : Int) = counter + depth quote.isSome [c] :=
      Int.toNat_of_nonneg (Int.le_of_lt hfirst)
    have hdepth (part : List Char) :
        (next : Int) + depth (openQuote quote position [c]).isSome part =
          counter + depth quote.isSome (c :: part) := by
      rw [isSome_openQuote, hnext, Int.add_assoc, ← Text.depth_append, List.singleton_append]
    have hrest : ∀ part, part <+: front → part ≠ [] →
        0 < next + depth (openQuote quote position [c]).isSome part := by
      intro part hpart _
      rw [hdepth]
      exact h (c :: part) (List.cons_prefix_cons.2 ⟨rfl, hpart⟩) (List.cons_ne_nil c part)
    have hquote : openQuote (openQuote quote position [c]) (position.next c) front =
        openQuote quote position (c :: front) := rfl
    rw [List.cons_append, skipGroup_step hfirst, ih hrest, hdepth, hquote]
    show _ = (skipGroup _ _ ((position.next c).after front) rest).map _
    cases skipGroup (counter + depth quote.isSome (c :: front)).toNat
      (openQuote quote position (c :: front)) ((position.next c).after front) rest <;> rfl

/-- The reader before the first character of a group, and what it has come to behind a part that
leaves the group open. -/
theorem skipGroup_of_staysOpen {front : List Char} (h : StaysOpen front) (position : Position)
    (rest : List Char) :
    skipGroup 0 none position (front ++ rest) =
      (skipGroup (depth false front).toNat (openQuote none position front) (position.after front)
        rest).map (Prod.map (front ++ ·) id) := by
  have hopen : ∀ part, part <+: front → part ≠ [] →
      0 < ((0 : Nat) : Int) + depth (none : Option Position).isSome part := by
    intro part hpart hne
    rw [Int.natCast_zero, Int.zero_add]
    exact h part hpart hne
  have hrun := skipGroup_run hopen position rest
  rwa [Int.natCast_zero, Int.zero_add, Option.isSome_none] at hrun

/-- A group is read up to its end. -/
theorem skipGroup_of_isGroup {group : List Char} (h : IsGroup group)
    (hhead : group.head? = some '(') (position : Position) (rest : List Char) :
    skipGroup 0 none position (group ++ rest) = .ok (group, rest) := by
  obtain ⟨front, rfl, hopen, hdepth, hinside⟩ := h.exists_concat hhead
  have hquote : openQuote none position front = none := by
    rw [← Option.not_isSome_iff_eq_none, isSome_openQuote, Option.isSome_none, hinside]
    exact Bool.false_ne_true
  rw [List.append_assoc, skipGroup_of_staysOpen hopen, hdepth, hquote]
  rfl

/-- A group that stays open is an error: a literal is open, or none is. -/
theorem skipGroup_error {s : List Char} (h : StaysOpen s) (position : Position) :
    skipGroup 0 none position s = .error (openQuote none position s) := by
  have hall := skipGroup_of_staysOpen h position []
  rw [List.append_nil] at hall
  rw [hall]
  rfl

theorem read_of_isGroup {group : List Char} (h : IsGroup group) (hhead : group.head? = some '(')
    (position : Position) (rest : List Char) :
    read position (group ++ rest) = .ok ⟨true, group, rest⟩ := by
  have hgroup := skipGroup_of_isGroup h hhead position rest
  obtain ⟨inner, rfl⟩ := List.head?_eq_some_iff.1 hhead
  rw [List.cons_append] at hgroup ⊢
  simp only [read, hgroup]

/-- Where a group stays open, the error lies at the quote of the open literal, or else at the
parenthesis. -/
theorem read_of_staysOpen {s : List Char} (h : StaysOpen s) (hhead : s.head? = some '(')
    (position : Position) :
    (∃ before behind, s = before ++ '\'' :: behind ∧ before.count '\'' % 2 = 0 ∧ '\'' ∉ behind ∧
      read position s = .error (.parse (position.after before) .unterminatedString)) ∨
    (s.count '\'' % 2 = 0 ∧ read position s = .error (.parse position .unterminatedParen)) := by
  have hquotes {t : List Char} (ht : endsInside false t = false) : t.count '\'' % 2 = 0 := by
    rw [endsInside, Bool.false_xor, beq_eq_false_iff_ne] at ht
    omega
  have herror := skipGroup_error h position
  obtain ⟨inner, rfl⟩ := List.head?_eq_some_iff.1 hhead
  cases hquote : openQuote none position ('(' :: inner) with
  | some start =>
    rw [hquote] at herror
    rcases openQuote_eq_some hquote with
      ⟨hnone, -⟩ | ⟨before, behind, hsplit, hbefore, hbehind, hstart⟩
    · cases hnone
    · refine .inl ⟨before, behind, hsplit, hquotes hbefore, hbehind, ?_⟩
      simp only [read, herror, hstart]
  | none =>
    have hinside := isSome_openQuote none position ('(' :: inner)
    rw [hquote] at herror hinside
    refine .inr ⟨hquotes hinside.symm, ?_⟩
    simp only [read, herror]

/-- A text that starts with a parenthesis is read up to the end of a group, or stays open. -/
theorem read_group {s : List Char} (hhead : s.head? = some '(') (position : Position) :
    (∃ group rest, s = group ++ rest ∧ IsGroup group ∧
      read position s = .ok ⟨true, group, rest⟩) ∨ StaysOpen s := by
  rcases Text.isGroup_or_staysOpen hhead with ⟨group, ⟨rest, rfl⟩, hgroup⟩ | hopen
  · have hstarts := Text.head?_of_initial (List.prefix_append group rest) hgroup.nonempty hhead
    exact .inl ⟨group, rest, rfl, hgroup, read_of_isGroup hgroup hstarts position rest⟩
  · exact .inr hopen

end Dummy

/-! ## Bound names in front of a parenthesis -/

namespace Token

open Text (depth Balanced)

variable {name : String} (hvalid : Name.isValid name.toList = true)
  (hkeyword : name ∉ Directive.keywords)

include hvalid hkeyword

/-- A bound name takes its dummy value, wherever it stands. -/
theorem scanFrom_bound (nesting : Nesting) (pending : Pending) (position : Position)
    (s : List Char) :
    scanFrom nesting pending position (Text.comment name.toList ++ s) =
      match Dummy.read (position.after (Text.comment name.toList)) s with
      | .error e => ⟨[], some e⟩
      | .ok dummy =>
        (scanFrom nesting .none ((position.after (Text.comment name.toList)).after dummy.taken)
          dummy.rest).prepend (pending.tokens ++ [⟨.bind name dummy.paren, position⟩]) := by
  have hread := Lexeme.read_variable hvalid (by decide) (VariableForm.isDirective hvalid .bound)
    (VariableForm.read_directive hvalid hkeyword .bound) position s
  let comment := Text.comment name.toList
  let taken := '*' :: (name.toList ++ ['*', '/'])
  have hread : Lexeme.read position '/' (taken ++ s) =
      (Dummy.read (position.after comment) s).map fun dummy =>
        ⟨.bind name dummy.paren, taken ++ dummy.taken, dummy.rest⟩ := hread
  show scanFrom nesting pending position ('/' :: (taken ++ s)) = _
  split
  · next e hdummy =>
    rw [hdummy] at hread
    exact scanFrom_error hread nesting pending
  · next dummy hdummy =>
    rw [hdummy] at hread
    rw [scanFrom_accept hread nofun rfl pending, ← List.cons_append, Position.after_append]
    rfl

/-- A bound name in front of a parenthesis takes the shortest part that closes the parenthesis, and
the scan goes on behind it as it would scan the rest alone. If no part does, the scan fails at the
quote of a literal that is open at the end, or else at the parenthesis. Up to the end of the group
the depth is nowhere below zero, and until the group ends it is what the reader counts. -/
theorem scan_group {s : String} (hs : s.toList.head? = some '(') :
    let place := Position.start.after (Text.comment name.toList)
    let scanned := scan (String.ofList (Text.comment name.toList) ++ s)
    let Closed (part : List Char) : Prop :=
      part <+: s.toList ∧ part ≠ [] ∧ depth false part = 0
    ((∃ part, Closed part) →
      ∃ dummy rest : String, s = dummy ++ rest ∧ Closed dummy.toList ∧ Balanced dummy.toList ∧
        (∀ part, Closed part → dummy.toList.length ≤ part.length) ∧
        scanned = ((scan rest).behind (place.after dummy.toList)).prepend
          [⟨.bind name true, .start⟩]) ∧
    ((¬ ∃ part, Closed part) →
      (∃ before behind, s.toList = before ++ '\'' :: behind ∧ before.count '\'' % 2 = 0 ∧
        '\'' ∉ behind ∧
        scanned = ⟨[], some (.parse (place.after before) .unterminatedString)⟩) ∨
      (s.toList.count '\'' % 2 = 0 ∧
        scanned = ⟨[], some (.parse place .unterminatedParen)⟩)) ∧
    ∀ front rest, s.toList = front ++ rest →
      (∀ part, part <+: front → part ≠ front → ¬ Closed part) →
      0 ≤ depth false front ∧ (¬ Closed front → ∃ quote,
        Dummy.skipGroup 0 none place s.toList =
          (Dummy.skipGroup (depth false front).toNat quote (place.after front) rest).map
            (Prod.map (front ++ ·) id)) := by
  intro place scanned Closed
  have hscanned : scanned =
      match Dummy.read place s.toList with
      | .error e => ⟨[], some e⟩
      | .ok dummy =>
        (scanFrom [] .none (place.after dummy.taken) dummy.rest).prepend
          [⟨.bind name dummy.paren, .start⟩] := by
    show scanFrom [] .none .start (String.ofList (Text.comment name.toList) ++ s).toList = _
    rw [String.toList_append, String.toList_ofList]
    exact scanFrom_bound hvalid hkeyword [] .none .start s.toList
  refine ⟨?_, fun hnone => ?_, fun front rest hsplit hproper => ?_⟩
  · rintro ⟨part, hpart, hne, hclosed⟩
    rcases Dummy.read_group hs place with ⟨group, rest, hsplit, hgroup, hread⟩ | hopen
    · have hinitial : group <+: s.toList := ⟨rest, hsplit.symm⟩
      have hrest := scan_behind (place.after group) (String.ofList rest)
      rw [String.toList_ofList] at hrest
      rw [hread] at hscanned
      refine ⟨String.ofList group, String.ofList rest, ?_, ?_⟩
      · rw [← String.ofList_append, ← hsplit, String.ofList_toList]
      · rw [String.toList_ofList, ← hrest]
        exact ⟨⟨hinitial, hgroup.nonempty, hgroup.closed⟩, hgroup.balanced,
          fun part hpart => hgroup.length_le hinitial hpart.1 hpart.2.1 hpart.2.2, hscanned⟩
    · have hpositive := hopen part hpart hne
      omega
  · rcases Dummy.read_group hs place with ⟨group, rest, hsplit, hgroup, -⟩ | hopen
    · exact absurd ⟨group, ⟨rest, hsplit.symm⟩, hgroup.nonempty, hgroup.closed⟩ hnone
    · rcases Dummy.read_of_staysOpen hopen hs place with
        ⟨before, behind, hsplit, hbefore, hbehind, hread⟩ | ⟨hquotes, hread⟩
      · rw [hread] at hscanned
        exact .inl ⟨before, behind, hsplit, hbefore, hbehind, hscanned⟩
      · rw [hread] at hscanned
        exact .inr ⟨hquotes, hscanned⟩
  · have hinitial : front <+: s.toList := ⟨rest, hsplit.symm⟩
    by_cases hclosed : Closed front
    · exact ⟨Int.le_of_eq hclosed.2.2.symm, fun hopen => absurd hclosed hopen⟩
    · have hopen : Text.StaysOpen front := by
        refine Text.staysOpen_of_not_closed hs hinitial fun part hpart hne hzero => ?_
        have hpartClosed : Closed part := ⟨hpart.trans hinitial, hne, hzero⟩
        by_cases hall : part = front
        · exact hclosed (hall ▸ hpartClosed)
        · exact hproper part hpart hall hpartClosed
      refine ⟨?_, fun _ => ⟨Dummy.openQuote none place front, ?_⟩⟩
      · by_cases hnil : front = []
        · exact hnil ▸ Int.le_refl 0
        · exact Int.le_of_lt (hopen front List.prefix_rfl hnil)
      · rw [hsplit]
        exact Dummy.skipGroup_of_staysOpen hopen place rest

omit hvalid hkeyword in
/-- A group with literals that hold parentheses, behind which there is a parenthesis that is not its
own; a group that ends inside a literal, and one that ends outside of them. -/
theorem scan_group_literals :
    let place := Position.start.after "/*x.ids*/".toList
    let Closed (s : String) (part : List Char) : Prop :=
      part <+: s.toList ∧ part ≠ [] ∧ depth false part = 0
    let list := "(1, 'a)''(é', (2))) AND b = /*c*/3"
    Name.isValid "x.ids".toList = true ∧ "x.ids" ∉ Directive.keywords ∧
      Closed list "(1, 'a)''(é', (2))".toList ∧
      (∃ dummy rest : String, list = dummy ++ rest ∧ Balanced dummy.toList ∧
        scan ("/*x.ids*/" ++ list) =
          ((scan rest).behind (place.after dummy.toList)).prepend
            [⟨.bind "x.ids" true, .start⟩]) ∧
      (¬ ∃ part, Closed "(()')" part) ∧
      (∃ before behind, "(()')".toList = before ++ '\'' :: behind ∧
        scan ("/*x.ids*/" ++ "(()')") =
          ⟨[], some (.parse (place.after before) .unterminatedString)⟩) ∧
      (¬ ∃ part, Closed "((')')" part) ∧
      scan ("/*x.ids*/" ++ "((')')") = ⟨[], some (.parse place .unterminatedParen)⟩ := by
  intro place Closed list
  have hvalid : Name.isValid "x.ids".toList = true := by decide
  have hkeyword : "x.ids" ∉ Directive.keywords := by decide
  have hopen {s : String}
      (h : s.toList.inits.all (fun part => part == [] || depth false part != 0) = true) :
      ¬ ∃ part, Closed s part := by
    rintro ⟨part, hpart, hne, hclosed⟩
    have hdepth := List.all_eq_true.1 h part ((List.mem_inits _ _).2 hpart)
    simp [hne, hclosed] at hdepth
  have hclosed : Closed list "(1, 'a)''(é', (2))".toList := by decide
  have hquote : ¬ ∃ part, Closed "(()')" part := hopen (by decide)
  have hparen : ¬ ∃ part, Closed "((')')" part := hopen (by decide)
  have hlist : list.toList.head? = some '(' := by decide
  obtain ⟨hgroup, -⟩ := scan_group hvalid hkeyword hlist
  obtain ⟨dummy, rest, hsplit, -, hbalanced, -, hscan⟩ := hgroup ⟨_, hclosed⟩
  have hstring : "(()')".toList.head? = some '(' := by decide
  have hcount : "(()')".toList.count '\'' = 1 := by decide
  obtain ⟨-, hfails, -⟩ := scan_group hvalid hkeyword hstring
  obtain ⟨before, behind, hbefore, -, -, hliteral⟩ :=
    (hfails hquote).resolve_right fun h => by rw [hcount] at h; cases h.1
  have hparens : "((')')".toList.head? = some '(' := by decide
  obtain ⟨-, hfails', -⟩ := scan_group hvalid hkeyword hparens
  have hunclosed := (hfails' hparen).resolve_left fun h => by
    -- an open literal leaves an odd number of quotes
    obtain ⟨before, behind, hsplit, heven, hbehind, -⟩ := h
    have htwo : "((')')".toList.count '\'' = 2 := by decide
    rw [hsplit, List.count_append, List.count_cons_self, List.count_eq_zero.2 hbehind] at htwo
    omega
  exact ⟨hvalid, hkeyword, hclosed, ⟨dummy, rest, hsplit, hbalanced, hscan⟩, hquote,
    ⟨before, behind, hbefore, hliteral⟩, hparen, hunclosed.2⟩

end Token

end TwoWaySql
