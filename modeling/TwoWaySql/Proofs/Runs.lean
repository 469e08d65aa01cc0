import TwoWaySql.Proofs.LineComments

/-!
# Words and blanks

The rules that tidy up clauses look for whole words with blanks between them. This file cuts a row
of pieces into runs, each a word, the blanks between two other runs or a piece of its own, and reads
keywords on runs. It

1. shows that the runs of a row make it up and are as long as they can be (`flatMap_pieces_runs`,
   `maximal_runs`), and that such runs are found again (`runs_flatMap_pieces`);
2. compares words with keywords by their names in upper case (`word?_append`);
3. says what is read at the start of runs: blanks (`Maximal.blanks?_text`) and keywords
   (`Maximal.word?_text`). In front of blanks a keyword counts as a whole word only
   (`bind_keyword?`).
-/

namespace TwoWaySql.Clause

open Text (isBlank isWord startsWithWord)

/-! ## Runs -/

/-- What the characters of a run have in common. -/
inductive Kind where
  | word
  | blanks
  deriving DecidableEq, Repr

/-- The kind of a character, if runs are made of its like. -/
def Kind.of? (c : Char) : Option Kind :=
  if isWord c then some word else if isBlank c then some blanks else none

/-- A run of a row of pieces: a word, the blanks between two other runs, or a single piece that is
neither a blank nor part of a word. -/
inductive Run where
  | group (kind : Kind) (chars : List Char)
  | piece (p : Piece)
  deriving DecidableEq, Repr

namespace Run

@[match_pattern]
abbrev word (chars : List Char) : Run := group .word chars

@[match_pattern]
abbrev blanks (chars : List Char) : Run := group .blanks chars

def kind? : Run → Option Kind
  | group kind _ => some kind
  | piece _ => none

/-- The pieces of a run. -/
def pieces : Run → List Piece
  | group _ s => s.map .live
  | piece p => [p]

/-- The characters of a run, with a mask for a hidden span. -/
def masked (r : Run) : List Char := r.pieces.map Piece.masked

/-- Adds a piece in front of runs: to the first one if it is of its kind. -/
def push (p : Piece) (rs : List Run) : List Run :=
  match Kind.of? p.masked with
  | none => piece p :: rs
  | some kind =>
    match rs with
    | group first s :: rest =>
      if first = kind then group kind (p.masked :: s) :: rest else group kind [p.masked] :: rs
    | rs => group kind [p.masked] :: rs

/-- A run holds characters of its kind. -/
def Proper : Run → Prop
  | group kind s => s ≠ [] ∧ ∀ c ∈ s, Kind.of? c = some kind
  | piece p => Kind.of? p.masked = none

/-- Two runs that do not make up one. -/
def Apart (r s : Run) : Prop := ∀ kind ∈ r.kind?, s.kind? ≠ some kind

end Run

/-- The runs of a row of pieces. -/
def runs (row : List Piece) : List Run := row.foldr Run.push []

/-- The characters of runs, with masks for hidden spans. -/
def text (rs : List Run) : List Char := rs.flatMap Run.masked

/-- Runs that are as long as they can be. -/
structure Maximal (rs : List Run) : Prop where
  proper : ∀ r ∈ rs, r.Proper
  apart : rs.IsChain Run.Apart

@[simp]
theorem Run.masked_group (kind : Kind) (s : List Char) : (group kind s).masked = s :=
  map_masked_live s

@[simp]
theorem Run.masked_piece (p : Piece) : (piece p).masked = [p.masked] := rfl

@[simp]
theorem text_nil : text [] = [] := rfl

@[simp]
theorem text_cons (r : Run) (rest : List Run) : text (r :: rest) = r.masked ++ text rest := rfl

theorem text_append (front rest : List Run) : text (front ++ rest) = text front ++ text rest :=
  List.flatMap_append

/-- A character of some kind is no hidden span. -/
theorem Kind.eq_live {p : Piece} {kind : Kind} (h : of? p.masked = some kind) :
    p = .live p.masked := by
  cases p with
  | live c => rfl
  | hidden span =>
    have hmask : of? mask = none := by decide
    cases hmask.symm.trans h

theorem Run.flatMap_pieces_push (p : Piece) (rs : List Run) :
    (push p rs).flatMap pieces = p :: rs.flatMap pieces := by
  unfold push
  split
  · rfl
  · next kind hkind =>
    have hp := Kind.eq_live hkind
    have hone : (group kind [p.masked]).pieces = [p] := by rw [pieces, List.map_singleton, ← hp]
    split
    · next first s rest =>
      split
      · next hfirst =>
        subst hfirst
        rw [List.flatMap_cons, List.flatMap_cons, pieces, List.map_cons, ← hp]
        rfl
      · rw [List.flatMap_cons, hone]
        rfl
    · rw [List.flatMap_cons, hone]
      rfl

/-- The runs of a row make it up. -/
@[simp]
theorem flatMap_pieces_runs (row : List Piece) : (runs row).flatMap Run.pieces = row := by
  induction row with
  | nil => rfl
  | cons p row ih =>
    show (Run.push p (runs row)).flatMap Run.pieces = _
    rw [Run.flatMap_pieces_push, ih]

theorem map_masked_flatMap_pieces (rs : List Run) :
    (rs.flatMap Run.pieces).map Piece.masked = text rs := by
  rw [List.map_flatMap]
  rfl

namespace Maximal

variable {r : Run} {rs : List Run}

theorem nil : Maximal [] := ⟨nofun, .nil⟩

theorem head (h : Maximal (r :: rs)) : r.Proper := h.proper r List.mem_cons_self

theorem tail (h : Maximal (r :: rs)) : Maximal rs :=
  ⟨fun s hs => h.proper s (List.mem_cons_of_mem r hs), (List.isChain_cons.1 h.apart).2⟩

theorem apart_head (h : Maximal (r :: rs)) : ∀ s ∈ rs.head?, r.Apart s :=
  (List.isChain_cons.1 h.apart).1

theorem cons (hr : r.Proper) (h : Maximal rs) (hapart : ∀ s ∈ rs.head?, r.Apart s) :
    Maximal (r :: rs) :=
  ⟨List.forall_mem_cons.2 ⟨hr, h.proper⟩, List.isChain_cons.2 ⟨hapart, h.apart⟩⟩

theorem of_append {front : List Run} (h : Maximal (front ++ rs)) : Maximal rs :=
  ⟨fun s hs => h.proper s (List.mem_append_right front hs), (List.isChain_append.1 h.apart).2.1⟩

theorem push (p : Piece) (h : Maximal rs) : Maximal (Run.push p rs) := by
  unfold Run.push
  split
  · next hnone => exact .cons hnone h fun s _ => nofun
  · next kind hkind =>
    have hone : (Run.group kind [p.masked]).Proper := ⟨nofun, by simpa using hkind⟩
    split
    · next first s rest =>
      split
      · next hfirst =>
        subst hfirst
        exact .cons ⟨nofun, List.forall_mem_cons.2 ⟨hkind, h.head.2⟩⟩ h.tail h.apart_head
      · next hfirst =>
        refine .cons hone h fun t ht k hk heq => hfirst ?_
        cases ht
        cases hk
        exact Option.some.inj heq
    · next hother =>
      refine .cons hone h fun t ht k hk heq => ?_
      cases t with
      | group first s =>
        obtain ⟨rest, rfl⟩ := List.head?_eq_some_iff.1 ht
        exact hother first s rest rfl
      | piece q => cases heq

end Maximal

/-- The runs of a row are as long as they can be. -/
theorem maximal_runs (row : List Piece) : Maximal (runs row) := by
  induction row with
  | nil => exact .nil
  | cons p row ih => exact ih.push p

theorem Run.foldr_push {r : Run} {rs : List Run} (h : Maximal (r :: rs)) :
    r.pieces.foldr push rs = r :: rs := by
  cases r with
  | piece p =>
    have hnone : Kind.of? p.masked = none := h.head
    simp [pieces, push, hnone]
  | group kind s =>
    obtain ⟨hne, hs⟩ := h.head
    have hapart : ∀ t ∈ rs.head?, t.kind? ≠ some kind := fun t ht => h.apart_head t ht kind rfl
    clear h
    induction s with
    | nil => exact absurd rfl hne
    | cons c s ih =>
      obtain ⟨hc, hs⟩ := List.forall_mem_cons.1 hs
      show push (.live c) ((s.map Piece.live).foldr push rs) = _
      cases s with
      | nil =>
        show push (.live c) rs = _
        have hkind : Kind.of? (Piece.live c).masked = some kind := hc
        rw [push, hkind]
        rcases rs with _ | ⟨⟨first, t⟩ | q, rest⟩
        · rfl
        · have hfirst : first ≠ kind := fun heq => hapart _ rfl (congrArg some heq)
          simp [hfirst, Piece.masked]
        · rfl
      | cons d s =>
        have hrest := ih nofun hs
        have hkind : Kind.of? (Piece.live c).masked = some kind := hc
        rw [pieces] at hrest
        rw [hrest, push, hkind]
        simp [Piece.masked]

/-- Runs that are as long as they can be are found again. -/
theorem runs_flatMap_pieces {rs : List Run} (h : Maximal rs) :
    runs (rs.flatMap Run.pieces) = rs := by
  induction rs with
  | nil => rfl
  | cons r rs ih =>
    rw [List.flatMap_cons, runs, List.foldr_append]
    show r.pieces.foldr Run.push (runs (rs.flatMap Run.pieces)) = _
    rw [ih h.tail, Run.foldr_push h]

/-! ## Keywords -/

/-- A letter in upper case, where the long s is a lower case of S. -/
def upper (c : Char) : Char := if c = 'ſ' then 'S' else c.toUpper

/-- A word in upper case, and the empty text for any other run. -/
def Run.name : Run → String
  | word w => String.ofList (w.map upper)
  | _ => ""

@[simp]
theorem Run.name_blanks (b : List Char) : (blanks b).name = "" := rfl

@[simp]
theorem Run.name_piece (p : Piece) : (piece p).name = "" := rfl

theorem isLetter_iff {letter c : Char} (h : letter.isUpper = true) :
    isLetter letter c = true ↔ upper c = letter := by
  unfold isLetter upper
  split
  · next hc =>
    subst hc
    have hletter : 'ſ' ≠ letter := by
      rintro rfl
      cases h
    have hupper : 'ſ'.toUpper = 'ſ' := by decide
    rw [hupper, beq_false_of_ne hletter, Bool.false_or, beq_self_eq_true, Bool.and_true, beq_iff_eq]
    exact eq_comm
  · next hc => simp [hc]

theorem isWord_of_isLetter {letter c : Char} (h : letter.isUpper = true)
    (hc : isLetter letter c = true) : isWord c = true := by
  by_cases hs : c = 'ſ'
  · subst hs
    decide +kernel
  · have hupper : c.toUpper = letter := by simpa [isLetter, hs] using hc
    have halpha : c.isAlpha = true := by
      unfold Char.toUpper at hupper
      split at hupper
      · next hlower =>
        have hlower : c.isLower = true :=
          Bool.and_eq_true_iff.2 ⟨decide_eq_true hlower.1, decide_eq_true hlower.2⟩
        exact Bool.or_eq_true_iff.2 (.inr hlower)
      · exact Bool.or_eq_true_iff.2 (.inl (hupper ▸ h))
    have hinner : Name.isInner c = true := by simp [Name.isInner, Char.isAlphanum, halpha]
    have hsmall : c.toNat < 0x80 := by
      have := Name.toNat_of_isPart (Name.isPart_of_isInner hinner)
      omega
    rw [Text.isWord, if_pos hsmall]
    exact hinner

/-- A keyword in upper case. -/
abbrev IsKeyword (keyword : String) : Prop := keyword ≠ "" ∧ keyword.toList.all Char.isUpper = true

/-- A keyword at the start of a text as a whole word, and what follows it. -/
def word? (keyword : String) (s : List Char) : Option (List Char × List Char) :=
  (keyword? keyword.toList s).filter fun found => !startsWithWord found.2

/-- In front of a reader that refuses a word, only what is not followed by one counts. -/
theorem bind_filter_word {α : Type} {next : List Char × List Char → Option α}
    (h : ∀ taken s, startsWithWord s = true → next (taken, s) = none)
    (found? : Option (List Char × List Char)) :
    found?.bind next = (found?.filter fun found => !startsWithWord found.2).bind next := by
  cases found? with
  | none => rfl
  | some found =>
    obtain ⟨taken, rest⟩ := found
    cases hword : startsWithWord rest with
    | false => simp [Option.filter, hword]
    | true => simp [Option.filter, hword, h taken rest hword]

/-- In front of a reader that refuses a word, only whole keywords count. -/
theorem bind_keyword? {α : Type} (next : List Char × List Char → Option α)
    (h : ∀ taken s, startsWithWord s = true → next (taken, s) = none) (keyword : String)
    (s : List Char) : (keyword? keyword.toList s).bind next = (word? keyword s).bind next :=
  bind_filter_word h _

theorem filter_keyword?_cons {letter c : Char} (h : isLetter letter c = true)
    (keyword s : List Char) (follows : List Char → Bool) :
    (keyword? (letter :: keyword) (c :: s)).filter (fun found => follows found.2) =
      ((keyword? keyword s).filter fun found => follows found.2).map fun found =>
        (c :: found.1, found.2) := by
  rw [keyword?, if_pos h]
  cases hs : keyword? keyword s with
  | none => rfl
  | some found => cases hfollows : follows found.2 <;> simp [Option.filter, hfollows]

/-- Whole words at the start of a text. -/
theorem word?_append {keyword : String} (hkeyword : keyword.toList.all Char.isUpper = true)
    {w rest : List Char} (hw : ∀ c ∈ w, isWord c = true) (hrest : startsWithWord rest = false) :
    word? keyword (w ++ rest) =
      if w.map upper = keyword.toList then some (w, rest) else none := by
  unfold word?
  generalize keyword.toList = letters at hkeyword
  induction letters generalizing w with
  | nil =>
    cases w with
    | nil => simp [keyword?, Option.filter, hrest]
    | cons c w =>
      -- the word goes on behind the keyword
      simp [keyword?, Option.filter, startsWithWord, hw c]
  | cons letter letters ih =>
    rw [List.all_cons, Bool.and_eq_true] at hkeyword
    cases w with
    | nil =>
      have hnone : keyword? (letter :: letters) rest = none := by
        cases rest with
        | nil => rfl
        | cons d rest =>
          rw [keyword?, if_neg]
          intro hd
          cases (isWord_of_isLetter hkeyword.1 hd).symm.trans hrest
      simp [hnone]
    | cons c w =>
      obtain ⟨hc, hw⟩ := List.forall_mem_cons.1 hw
      by_cases hletter : isLetter letter c = true
      · have hupper := (isLetter_iff hkeyword.1).1 hletter
        have hfilter := filter_keyword?_cons hletter letters (w ++ rest) fun s => !startsWithWord s
        rw [List.cons_append, hfilter, ih hw hkeyword.2]
        by_cases heq : w.map upper = letters <;> simp [heq, hupper]
      · have hupper : upper c ≠ letter := fun heq => hletter ((isLetter_iff hkeyword.1).2 heq)
        rw [List.cons_append, keyword?, if_neg hletter]
        simp [hupper]

/-! ## Readers on runs -/

theorem Kind.of?_eq_word {c : Char} : of? c = some word ↔ isWord c = true := by
  unfold of?
  split
  · next h => simp [h]
  · next h => split <;> simp [h]

theorem Kind.of?_eq_blanks {c : Char} : of? c = some blanks ↔ isBlank c = true := by
  unfold of?
  split
  · next h =>
    have hblank : isBlank c ≠ true := by
      intro hblank
      cases (isWord_of_isBlank hblank).symm.trans h
    simp [hblank]
  · split
    · next h => simp [h]
    · next h => simp [h]

/-- A text starts with a character of the kind of its first run. -/
theorem Maximal.head?_text {rs : List Run} (h : Maximal rs) :
    (text rs).head?.bind Kind.of? = rs.head?.bind Run.kind? := by
  cases rs with
  | nil => rfl
  | cons r rest =>
    cases r with
    | piece p => exact h.head
    | group kind s =>
      obtain ⟨hne, hs⟩ := h.head
      obtain ⟨c, s, rfl⟩ := List.exists_cons_of_ne_nil hne
      exact hs c List.mem_cons_self

theorem Maximal.startsWithWord_text {rs : List Run} (h : Maximal rs) :
    startsWithWord (text rs) = true ↔ rs.head?.bind Run.kind? = some .word := by
  rw [← h.head?_text, startsWithWord_eq]
  cases (text rs).head? with
  | none => simp
  | some c => simp [Kind.of?_eq_word]

theorem Maximal.blanks?_text_eq_none {rs : List Run} (h : Maximal rs)
    (hrs : rs.head?.bind Run.kind? ≠ some .blanks) : blanks? (text rs) = none := by
  rw [blanks?_eq_none_iff]
  rw [← h.head?_text] at hrs
  intro c hc
  rw [Option.mem_def.1 hc, Option.bind_some, ne_eq, Kind.of?_eq_blanks] at hrs
  exact eq_false_of_ne_true hrs

theorem Maximal.blanks?_text {b : List Char} {rest : List Run}
    (h : Maximal (.blanks b :: rest)) : blanks? (b ++ text rest) = some (b, text rest) := by
  have hb : IsBlanks b := ⟨h.head.1, fun c hc => Kind.of?_eq_blanks.1 (h.head.2 c hc)⟩
  refine blanks?_append hb (blanks?_eq_none_iff.1 (h.tail.blanks?_text_eq_none ?_))
  intro hrest
  obtain ⟨r, hr, hkind⟩ := Option.bind_eq_some_iff.1 hrest
  exact h.apart_head r hr _ rfl hkind

/-- A keyword is found in front of runs if the first one is that word. -/
theorem Maximal.word?_text {keyword : String} (hkeyword : IsKeyword keyword) {r : Run}
    {rest : List Run} (h : Maximal (r :: rest)) :
    word? keyword (r.masked ++ text rest) =
      if r.name = keyword then some (r.masked, text rest) else none := by
  have hnone (hr : r.kind? ≠ some .word) : word? keyword (r.masked ++ text rest) = none := by
    have hstart : startsWithWord (text (r :: rest)) = false :=
      eq_false_of_ne_true fun hword => hr (h.startsWithWord_text.1 hword)
    have hfind : word? keyword ([] ++ text (r :: rest)) = _ := word?_append hkeyword.2 nofun hstart
    rw [if_neg fun heq => hkeyword.1 (String.toList_inj.1 heq.symm)] at hfind
    exact hfind
  rcases r with ⟨_ | _, w⟩ | p
  · have hw : ∀ c ∈ w, isWord c = true := fun c hc => Kind.of?_eq_word.1 (h.head.2 c hc)
    have hrest : startsWithWord (text rest) = false := by
      refine eq_false_of_ne_true fun hword => ?_
      obtain ⟨r, hr, hkind⟩ := Option.bind_eq_some_iff.1 (h.tail.startsWithWord_text.1 hword)
      exact h.apart_head r hr _ rfl hkind
    rw [Run.masked_group, word?_append hkeyword.2 hw hrest]
    simp [Run.name, ← String.toList_inj]
  · exact (hnone nofun).trans (if_neg (Ne.symm hkeyword.1)).symm
  · exact (hnone nofun).trans (if_neg (Ne.symm hkeyword.1)).symm

theorem word?_nil {keyword : String} (h : IsKeyword keyword) : word? keyword [] = none := by
  have hfind : word? keyword ([] ++ []) = _ := word?_append h.2 nofun rfl
  rwa [if_neg fun heq => h.1 (String.toList_inj.1 heq.symm)] at hfind

end TwoWaySql.Clause
