import TwoWaySql.Proofs.Printing

/-!
# Atoms of a source

The smallest parts of a source are its atoms: a character that stands for itself, a character with
a backslash in front that takes its meaning away, the start of a directive, and the colon in front
of a name. Only live text has atoms of the last three kinds; inside of literals and of comments each
character stands for itself. This file

1. defines the atoms of a text, with the region that each one stands in (`Region.atoms`), and shows
   that they make up the text again (`Region.flatMap_source_atoms`);
2. says what it means that a slice of live text decodes to a content (`Decodes`), also with more of
   the source behind it, and that decoding goes on from slice to slice (`Decodes.append`);
3. shows that each lexeme of text is a slice that decodes to what was read
   (`Lexeme.decodes_of_read`).

The atoms are defined without the readers, which cut the text at whole literals and comments.
-/

namespace TwoWaySql

/-! ## Atoms -/

/-- What a part of a source is: text of the statement, or inside of a literal or a comment. -/
inductive Region where
  | live
  | literal
  | lineComment
  | blockComment
  deriving DecidableEq, Repr

/-- The smallest parts of a source: a character that stands for itself, a character behind a
backslash that takes its meaning away, the start of a directive, and the sign in front of a name. -/
inductive Atom where
  | kept (c : Char)
  | escaped (c : Char)
  | directive
  | sigil
  deriving DecidableEq, Repr

namespace Atom

/-- How an atom is written. -/
def source : Atom → List Char
  | kept c => [c]
  | escaped c => ['\\', c]
  | directive => ['/', '*']
  | sigil => [':']

/-- The character of the statement that an atom stands for, if it is text. -/
def meaning? : Atom → Option Char
  | kept c | escaped c => some c
  | directive | sigil => none

end Atom

/-- The atoms of a text that starts in a region. Only live text has atoms that are more than a
character, and quotes, hyphens and comment marks lead out of it. -/
def Region.atoms : Region → List Char → List Atom
  | _, [] => []
  | .live, '\\' :: '/' :: '*' :: s => .escaped '/' :: .kept '*' :: atoms .live s
  | .live, '\\' :: ':' :: s => .escaped ':' :: atoms .live s
  | .live, '\\' :: '\\' :: s => .escaped '\\' :: atoms .live s
  | .live, '\'' :: s => .kept '\'' :: atoms .literal s
  | .live, '-' :: '-' :: s => .kept '-' :: .kept '-' :: atoms .lineComment s
  | .live, '/' :: '*' :: s =>
    if Directive.isDirective s then .directive :: atoms .blockComment s
    else .kept '/' :: .kept '*' :: atoms .blockComment s
  | .live, ':' :: ':' :: s => .kept ':' :: .kept ':' :: atoms .live s
  | .live, ':' :: s =>
    (if s.head?.any Name.isStart then .sigil else .kept ':') :: atoms .live s
  | .live, c :: s => .kept c :: atoms .live s
  | .literal, c :: s => .kept c :: atoms (if c = '\'' then .live else .literal) s
  | .lineComment, c :: s => .kept c :: atoms (if c = '\n' then .live else .lineComment) s
  | .blockComment, '*' :: '/' :: s => .kept '*' :: .kept '/' :: atoms .live s
  | .blockComment, c :: s => .kept c :: atoms .blockComment s

open Region (atoms)

namespace Region

/-- The atoms make up the text again. -/
theorem flatMap_source_atoms (region : Region) (s : List Char) :
    (region.atoms s).flatMap Atom.source = s := by
  fun_induction Region.atoms region s with
  | case10 s hnot ih =>
    rw [List.flatMap_cons, ih]
    split <;> rfl
  | _ => simp_all [Atom.source]

theorem atoms_eq_nil_iff {region : Region} {s : List Char} : region.atoms s = [] ↔ s = [] := by
  constructor
  · intro h
    rw [← flatMap_source_atoms region s, h]
    rfl
  · rintro rfl
    cases region <;> rfl

/-- Where each atom is a kept character, each character is kept. -/
theorem atoms_eq_kept {region : Region} {s : List Char}
    (h : ∀ atom ∈ region.atoms s, ∃ c, atom = .kept c) : region.atoms s = s.map .kept := by
  have hatoms : ∀ row : List Atom, (∀ atom ∈ row, ∃ c, atom = .kept c) →
      row = (row.flatMap Atom.source).map .kept := by
    intro row hrow
    induction row with
    | nil => rfl
    | cons atom row ih =>
      obtain ⟨⟨c, rfl⟩, hrest⟩ := List.forall_mem_cons.1 hrow
      exact congrArg (Atom.kept c :: ·) (ih hrest)
  have hall := hatoms _ h
  rwa [flatMap_source_atoms] at hall

/-- A region that ends behind a character is text up to there. -/
theorem atoms_cutThrough (region : Region) {mark : Char} (hstep : ∀ c s,
      region.atoms (c :: s) = .kept c :: atoms (if c = mark then .live else region) s)
    {s taken rest : List Char} (h : Text.cutThrough? mark s = some (taken, rest))
    (x : List Char) : region.atoms (taken ++ x) = taken.map .kept ++ atoms .live x := by
  induction s generalizing taken with
  | nil => cases h
  | cons c s ih =>
    rw [Text.cutThrough?] at h
    by_cases hc : c = mark
    · rw [if_pos hc] at h
      cases h
      rw [List.singleton_append, hstep, if_pos hc]
      rfl
    · rw [if_neg hc] at h
      obtain ⟨⟨b, a⟩, hcut, heq⟩ := Option.map_eq_some_iff.1 h
      cases heq
      rw [List.cons_append, hstep, if_neg hc, ih hcut]
      rfl

/-- A line comment that no line ends is text to the end. -/
theorem atoms_lineComment {s : List Char} (h : Text.cutThrough? '\n' s = none) :
    atoms .lineComment s = s.map .kept := by
  induction s with
  | nil => rfl
  | cons c s ih =>
    rw [Text.cutThrough?] at h
    by_cases hc : c = '\n'
    · rw [if_pos hc] at h
      cases h
    · rw [if_neg hc] at h
      rw [atoms, if_neg hc, ih (Option.map_eq_none_iff.1 h)]
      rfl

/-- A block comment is text up to its closing mark. -/
theorem atoms_cutComment {s content rest : List Char}
    (h : Text.cutComment? s = some (content, rest)) (x : List Char) :
    atoms .blockComment (content ++ '*' :: '/' :: x) =
      content.map .kept ++ .kept '*' :: .kept '/' :: atoms .live x := by
  fun_induction Text.cutComment? s generalizing content with
  | case1 => cases h
  | case2 rest =>
    cases h
    rfl
  | case3 c s hnot ih =>
    obtain ⟨⟨b, a⟩, hcut, heq⟩ := Option.map_eq_some_iff.1 h
    cases heq
    rw [List.cons_append, atoms, ih hcut]
    · rfl
    · -- a mark that starts here would start here in the text as well
      intro after hc heq
      have hrest := Text.append_of_cutComment? hcut
      cases b with
      | nil => cases heq
      | cons d b =>
        obtain ⟨rfl, -⟩ := List.cons.inj heq
        exact hnot _ hc hrest.symm

end Region

/-! ## Texts that decode -/

open Region (atoms)

/-- A slice of live text is the content with its escapes, it holds no directive and no sign of a
name, and the text behind it is live, whatever part of `rest` stands there. -/
structure Decodes (slice content rest : List Char) : Prop where
  meaning : (atoms .live slice).map Atom.meaning? = content.map some
  apart : ∀ x, x <+: rest → atoms .live (slice ++ x) = atoms .live slice ++ atoms .live x

namespace Decodes

theorem of_atoms {slice content rest : List Char} (front : List Atom)
    (hmeaning : front.map Atom.meaning? = content.map some)
    (h : ∀ x, x <+: rest → atoms .live (slice ++ x) = front ++ atoms .live x) :
    Decodes slice content rest := by
  -- nothing is a part of `rest`, too
  have hslice : atoms .live slice = front := by simpa [atoms] using h [] List.nil_prefix
  exact ⟨hslice ▸ hmeaning, hslice ▸ h⟩

theorem nil (rest : List Char) : Decodes [] [] rest := ⟨rfl, fun _ _ => rfl⟩

/-- A slice and the next one decode to their contents in a row. -/
theorem append {slice next content more rest : List Char} (h : Decodes slice content (next ++ rest))
    (hnext : Decodes next more rest) : Decodes (slice ++ next) (content ++ more) rest := by
  have hboth := h.apart next (List.prefix_append next rest)
  refine ⟨?_, fun x hx => ?_⟩
  · rw [hboth, List.map_append, h.meaning, hnext.meaning, List.map_append]
  · have hx' : next ++ x <+: next ++ rest := (List.prefix_append_right_inj next).2 hx
    rw [List.append_assoc, h.apart _ hx', hnext.apart x hx, hboth, List.append_assoc]

theorem content_eq_nil_iff {slice content rest : List Char} (h : Decodes slice content rest) :
    content = [] ↔ slice = [] := by
  have hlength := congrArg List.length h.meaning
  rw [List.length_map, List.length_map] at hlength
  rw [← List.length_eq_zero_iff, ← hlength, List.length_eq_zero_iff, Region.atoms_eq_nil_iff]

end Decodes

/-- What stands for more than its first character where live text starts with it. -/
def Region.leads : List (List Char) :=
  [['\\', '/', '*'], ['\\', ':'], ['\\', '\\'], ['\''], ['-', '-'], ['/', '*'], [':']]

/-- A character that leads nowhere stands for itself. -/
theorem Decodes.plain {c : Char} {rest : List Char}
    (h : ∀ lead ∈ Region.leads, ¬ lead <+: c :: rest) : Decodes [c] [c] rest := by
  refine .of_atoms [.kept c] rfl ?_
  rintro x ⟨t, rfl⟩
  have hnot (more : List Char) (hmem : c :: more ∈ Region.leads) (s : List Char)
      (hx : x = more ++ s) : False := h _ hmem ⟨s ++ t, by simp [hx]⟩
  rw [List.singleton_append, atoms]
  · rfl
  · rintro s rfl hx
    exact hnot ['/', '*'] (by decide) s hx
  · rintro s rfl hx
    exact hnot [':'] (by decide) s hx
  · rintro s rfl hx
    exact hnot ['\\'] (by decide) s hx
  · rintro rfl
    exact hnot [] (by decide) x rfl
  · rintro s rfl hx
    exact hnot ['-'] (by decide) s hx
  · rintro s rfl hx
    exact hnot ['*'] (by decide) s hx
  · rintro s rfl hx
    exact hnot [] (by decide) x rfl
  · rintro rfl
    exact hnot [] (by decide) x rfl

/-- Kept characters mean themselves. -/
theorem Atom.map_meaning?_kept (s : List Char) : (s.map kept).map meaning? = s.map some := by
  rw [List.map_map]
  rfl

/-- Characters that stand for themselves and lead back to live text. -/
theorem Decodes.kept {slice rest : List Char}
    (h : ∀ x, x <+: rest → atoms .live (slice ++ x) = slice.map .kept ++ atoms .live x) :
    Decodes slice slice rest :=
  .of_atoms _ (Atom.map_meaning?_kept slice) h

/-- The mark that closes a comment starts no directive. -/
theorem Directive.isDirective_append (content rest : List Char) :
    isDirective (content ++ '*' :: rest) = isDirective content := by
  cases content <;> rfl

theorem exists_of_map_eq_ok {ε α β : Type} {f : α → β} {result : Except ε α} {b : β}
    (h : result.map f = .ok b) : ∃ a, result = .ok a ∧ f a = b := by
  cases result with
  | error e => cases h
  | ok a => exact ⟨a, rfl, Except.ok.inj h⟩

namespace Lexeme

variable {c : Char} {s decoded taken rest : List Char}

theorem decodes_readEscape (h : readEscape s = ⟨.text decoded, taken, rest⟩) :
    Decodes ('\\' :: taken) decoded rest := by
  unfold readEscape at h
  split at h
  · cases h
    exact .of_atoms [.escaped '/', .kept '*'] rfl fun _ _ => rfl
  · cases h
    exact .of_atoms [.escaped ':'] rfl fun _ _ => rfl
  · cases h
    exact .of_atoms [.escaped '\\'] rfl fun _ _ => rfl
  · next hcomment hcolon hbackslash =>
    cases h
    apply Decodes.plain
    simp only [Region.leads, List.forall_mem_cons, List.cons_prefix_cons]
    refine ⟨?_, ?_, ?_, by simp⟩
    · rintro ⟨-, t, rfl⟩
      exact hcomment t rfl
    · rintro ⟨-, t, rfl⟩
      exact hcolon t rfl
    · rintro ⟨-, t, rfl⟩
      exact hbackslash t rfl

theorem decodes_readColon (h : readColon s = ⟨.text decoded, taken, rest⟩) :
    Decodes (':' :: taken) decoded rest := by
  unfold readColon at h
  split at h
  · cases h
    exact .of_atoms [.kept ':', .kept ':'] rfl fun _ _ => rfl
  · next c s hcolon =>
    split at h
    · cases h
    · next hstart =>
      cases h
      refine .kept fun x hx => ?_
      have hhead : x.head?.any Name.isStart = false := by
        rcases List.prefix_cons_iff.1 hx with rfl | ⟨t, rfl, -⟩
        · rfl
        · exact Bool.eq_false_iff.2 hstart
      rw [List.singleton_append, atoms, hhead]
      · rfl
      · rintro t rfl
        exact hcolon (List.cons_prefix_cons.1 hx).1.symm
  · cases h
    refine .kept fun x hx => ?_
    rw [List.prefix_nil.1 hx]
    rfl

theorem decodes_readHyphen (h : readHyphen s = ⟨.text decoded, taken, rest⟩) :
    Decodes ('-' :: taken) decoded rest := by
  unfold readHyphen at h
  split at h
  · split at h
    · next s taken rest hcut =>
      cases h
      refine .kept fun x _ => ?_
      have hcomment := Region.atoms_cutThrough .lineComment (fun c s => by rw [atoms]) hcut x
      show Atom.kept '-' :: .kept '-' :: atoms .lineComment (taken ++ x) = _
      rw [hcomment]
      rfl
    · next s _ hcut =>
      cases h
      refine .kept fun x hx => ?_
      rw [List.prefix_nil.1 hx, List.append_nil]
      show Atom.kept '-' :: .kept '-' :: atoms .lineComment s = _
      rw [Region.atoms_lineComment hcut]
      exact (List.append_nil _).symm
  · next hhyphen =>
    cases h
    apply Decodes.plain
    simp only [Region.leads, List.forall_mem_cons, List.cons_prefix_cons]
    refine ⟨by simp, by simp, by simp, by simp, ?_, by simp⟩
    rintro ⟨-, t, rfl⟩
    exact hhyphen t rfl

theorem decodes_readLiteral {position : Position}
    (h : readLiteral position s = .ok ⟨.text decoded, taken, rest⟩) :
    Decodes ('\'' :: taken) decoded rest := by
  unfold readLiteral at h
  split at h
  · next hcut =>
    cases h
    refine .kept fun x _ => ?_
    have hliteral := Region.atoms_cutThrough .literal (fun c s => by rw [atoms]) hcut x
    show Atom.kept '\'' :: atoms .literal (taken ++ x) = _
    rw [hliteral]
    rfl
  · cases h

/-- A directive is no text. -/
theorem not_text_of_ofDirective {position : Position} {content : List Char} {d : Directive}
    {r : Reading} (h : ofDirective position content s d = .ok r) (decoded : List Char) :
    r.lexeme ≠ .text decoded := by
  cases d with
  | bind name | embedded name quoted =>
    obtain ⟨dummy, -, rfl⟩ := exists_of_map_eq_ok h
    exact Lexeme.noConfusion
  | _ =>
    cases h
    exact Lexeme.noConfusion

theorem decodes_readSlash {position : Position}
    (h : readSlash position s = .ok ⟨.text decoded, taken, rest⟩) :
    Decodes ('/' :: taken) decoded rest := by
  unfold readSlash at h
  split at h
  · split at h
    · cases h
    · next s content rest hcut =>
      split at h
      · split at h
        · cases h
        · exact absurd rfl (not_text_of_ofDirective h decoded)
      · next hdirective =>
        cases h
        refine .kept fun x _ => ?_
        have hlive : atoms .live ('/' :: '*' :: (content ++ '*' :: '/' :: x)) =
            .kept '/' :: .kept '*' :: atoms .blockComment (content ++ '*' :: '/' :: x) := by
          rw [atoms, Directive.isDirective_append, if_neg hdirective]
        rw [List.cons_append, List.cons_append, List.append_assoc]
        show atoms .live ('/' :: '*' :: (content ++ '*' :: '/' :: x)) = _
        rw [hlive, Region.atoms_cutComment hcut x]
        simp
  · next hcomment =>
    cases h
    apply Decodes.plain
    simp only [Region.leads, List.forall_mem_cons, List.cons_prefix_cons]
    refine ⟨by simp, by simp, by simp, by simp, by simp, ?_, by simp⟩
    rintro ⟨-, t, rfl⟩
    exact hcomment t rfl

/-- What is read as text is a slice that decodes to it. -/
theorem decodes_of_read {position : Position}
    (h : read position c s = .ok ⟨.text decoded, taken, rest⟩) :
    Decodes (c :: taken) decoded rest := by
  unfold read at h
  split at h
  · next hc => exact hc ▸ decodes_readEscape (Except.ok.inj h)
  · split at h
    · next hc => exact hc ▸ decodes_readLiteral h
    · split at h
      · next hc => exact hc ▸ decodes_readHyphen (Except.ok.inj h)
      · split at h
        · next hc => exact hc ▸ decodes_readSlash h
        · split at h
          · next hc => exact hc ▸ decodes_readColon (Except.ok.inj h)
          · cases h
            apply Decodes.plain
            simp only [Region.leads, List.forall_mem_cons, List.cons_prefix_cons]
            grind

end Lexeme

end TwoWaySql
