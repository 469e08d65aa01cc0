import TwoWaySql.Proofs.Directives
import TwoWaySql.Proofs.Nesting

/-!
# Printing trees

A tree is printed as the source that spells out its marks one after the other (`Tree.print`): texts
with what is special in them escaped, variables with a dummy value, directives as comments. The
trees that a source can spell out that way are the normal ones (`Tree.isNormal`). This file defines
both and shows that the lexeme of each printed token is read back, whatever follows it
(`Lexeme.read_print`), and so is each character of a printed text (`Lexeme.read_escape`). Each
junction of two pieces is settled there: what is printed for a token either starts a comment or goes
on as the text does.
-/

namespace TwoWaySql

/-! ## What is printed -/

/-- A text with a backslash in front of each backslash, colon and start of a comment. -/
def Text.escape : List Char → List Char
  | [] => []
  | '\\' :: rest => '\\' :: '\\' :: escape rest
  | ':' :: rest => '\\' :: ':' :: escape rest
  | '/' :: '*' :: rest => '\\' :: '/' :: '*' :: escape rest
  -- a slash or a hyphen that is alone starts nothing
  | c :: rest => c :: escape rest

def Text.comment (content : List Char) : List Char := '/' :: '*' :: (content ++ ['*', '/'])

namespace TokenKind

/-- What a token is printed as. -/
def print : TokenKind → List Char
  | text content => Text.escape content.toList
  | bind name false => Text.comment name.toList ++ ['\'', 'x', '\'']
  | bind name true => Text.comment name.toList ++ ['(', '0', ')']
  | embedded name quoted =>
    Text.comment ((if quoted then '#' else '$') :: name.toList) ++ ['\'', 'x', '\'']
  | ifThen condition => Text.comment ("IF ".toList ++ condition.toList)
  | elseIf condition => Text.comment ("ELIF ".toList ++ condition.toList)
  | otherwise => Text.comment "ELSE".toList
  | beginBlock => Text.comment "BEGIN".toList
  | endIf | endBlock => Text.comment "END".toList

def isText : TokenKind → Bool
  | text _ => true
  | _ => false

/-- Whether a token can be printed: texts are not empty and hold no quote and no start of a line
comment, names are names, and conditions are trimmed, not empty and free of the end of a comment. -/
def isNormal : TokenKind → Bool
  | text content =>
    content != "" && !content.toList.contains '\'' && !Text.occursIn ['-', '-'] content.toList
  | bind name _ => Name.isValid name.toList && !Directive.keywords.contains name
  | embedded name _ => Name.isValid name.toList
  | ifThen condition | elseIf condition =>
    condition != "" && Text.trim condition.toList == condition.toList &&
      !Text.occursIn ['*', '/'] condition.toList
  | _ => true

end TokenKind

theorem TokenKind.text_of_isNormal {content : String} (h : (text content).isNormal = true) :
    content ≠ "" ∧ '\'' ∉ content.toList ∧ Text.occursIn ['-', '-'] content.toList = false := by
  simp only [isNormal, Bool.and_eq_true, bne_iff_ne, Bool.not_eq_true', List.contains_eq_mem,
    decide_eq_false_iff_not] at h
  exact ⟨h.1.1, h.1.2, h.2⟩

theorem TokenKind.condition_of_isNormal {condition : String}
    (h : (ifThen condition).isNormal = true) :
    condition ≠ "" ∧ Text.trim condition.toList = condition.toList ∧
      Text.occursIn ['*', '/'] condition.toList = false := by
  simp only [isNormal, Bool.and_eq_true, bne_iff_ne, beq_iff_eq, Bool.not_eq_true'] at h
  exact ⟨h.1.1, h.1.2, h.2⟩

/-- The source that spells out a tree. -/
def Tree.print (t : Tree) : String :=
  String.ofList ((t.marks.map Mark.kind).flatMap TokenKind.print)

/-! ## Normal trees -/

def Node.isText : Node → Bool
  | .text _ => true
  | _ => false

mutual

def Node.isNormal : Node → Bool
  | .text content => (TokenKind.text content).isNormal
  | .bind name paren => (TokenKind.bind name paren).isNormal
  | .embedded name quoted => (TokenKind.embedded name quoted).isNormal
  | .chain condition _ body rest =>
    (TokenKind.ifThen condition).isNormal && Node.isNormalAll body && rest.isNormal
  | .block body => Node.isNormalAll body

def Chain.isNormal : Chain → Bool
  | .done => true
  | .elseIf condition _ body rest =>
    (TokenKind.elseIf condition).isNormal && Node.isNormalAll body && rest.isNormal
  | .otherwise _ body => Node.isNormalAll body

/-- Whether a sequence can be printed: no text meets another one. -/
def Node.isNormalAll : List Node → Bool
  | [] => true
  | node :: rest =>
    node.isNormal && !(node.isText && (rest.head?.any Node.isText)) && Node.isNormalAll rest

end

/-- Whether a tree can be printed: its nodes can, and it is not deeper than trees may be. -/
def Tree.isNormal (t : Tree) : Bool := Node.isNormalAll t.nodes && t.depth ≤ maxNesting

/-! ## Comments -/

/-- A comment ends at its first closing mark. -/
theorem Text.cutComment?_append {content : List Char}
    (h : occursIn ['*', '/'] content = false) (rest : List Char) :
    cutComment? (content ++ '*' :: '/' :: rest) = some (content, rest) := by
  induction content with
  | nil => rfl
  | cons c more ih =>
    rw [occursIn, Bool.or_eq_false_iff] at h
    have hmore := ih h.2
    -- the mark does not start here, not even with its slash in what follows
    have hnot : ∀ after, c :: (more ++ '*' :: '/' :: rest) ≠ '*' :: '/' :: after := by
      intro after heq
      obtain ⟨rfl, hafter⟩ := List.cons.inj heq
      cases more with
      | nil => cases hafter
      | cons d more =>
        obtain ⟨rfl, -⟩ := List.cons.inj hafter
        simp at h
    show cutComment? (c :: (more ++ '*' :: '/' :: rest)) = _
    unfold cutComment?
    split
    · next heq => cases heq
    · next after heq => exact absurd heq (hnot after)
    · next d others _ heq =>
      obtain ⟨rfl, rfl⟩ := List.cons.inj heq
      rw [hmore]
      rfl

/-- Characters that are not a mark's first one hold no mark. -/
theorem Text.occursIn_append {mark : Char} {needle before : List Char} (h : mark ∉ before)
    (s : List Char) : occursIn (mark :: needle) (before ++ s) = occursIn (mark :: needle) s := by
  induction before with
  | nil => rfl
  | cons c rest ih =>
    rw [List.mem_cons, not_or] at h
    obtain ⟨hc, hrest⟩ := h
    rw [List.cons_append, occursIn, ih hrest]
    simp [hc]

namespace Lexeme

/-- A comment that is a directive is read as that directive. -/
theorem read_comment {content : List Char} {d : Directive}
    (hdirective : Directive.isDirective content = true)
    (hend : Text.occursIn ['*', '/'] content = false) (hread : Directive.read content = .ok d)
    (position : Position) (rest : List Char) :
    read position '/' ('*' :: (content ++ ['*', '/']) ++ rest) =
      ofDirective position content rest d := by
  have hcut := Text.cutComment?_append hend rest
  rw [List.cons_append, List.append_assoc]
  show readSlash position ('*' :: (content ++ '*' :: '/' :: rest)) = _
  simp only [readSlash, hcut, hdirective, if_true, hread]

/-- The comment of a name, or of a name behind a sign. -/
theorem read_variable {name : String} {sign : List Char} {d : Directive}
    (hvalid : Name.isValid name.toList = true) (hsign : '*' ∉ sign)
    (hdirective : Directive.isDirective (sign ++ name.toList) = true)
    (hread : Directive.read (sign ++ name.toList) = .ok d) (position : Position)
    (rest : List Char) :
    read position '/' ('*' :: (sign ++ name.toList ++ ['*', '/']) ++ rest) =
      ofDirective position (sign ++ name.toList) rest d := by
  have hfree : Text.occursIn ['*', '/'] (sign ++ name.toList ++ []) = false := by
    apply Text.occursIn_append
    intro hmem
    rcases List.mem_append.1 hmem with h | h
    · exact hsign h
    · exact absurd (Name.isPart_of_isValid hvalid _ h) (by decide)
  rw [List.append_nil] at hfree
  exact read_comment hdirective hfree hread position rest

theorem read_condition {word : List Char} {condition : String} {d : Directive}
    (hword : word.all Name.isPart = true)
    (hfirst : ∃ c rest, word = c :: rest ∧ Name.isStart c = true)
    (hne : condition ≠ "") (htrim : Text.trim condition.toList = condition.toList)
    (hend : Text.occursIn ['*', '/'] condition.toList = false)
    (hread : Directive.readWord word condition.toList = .ok d) (position : Position)
    (rest : List Char) :
    read position '/' ('*' :: (word ++ ' ' :: condition.toList ++ ['*', '/']) ++ rest) =
      ofDirective position (word ++ ' ' :: condition.toList) rest d := by
  have hdirective : Directive.isDirective (word ++ ' ' :: condition.toList) = true := by
    obtain ⟨c, more, rfl, hc⟩ := hfirst
    exact Directive.isDirective_of_isStart hc _
  have hfree : Text.occursIn ['*', '/'] (word ++ [' '] ++ condition.toList) = false := by
    rw [Text.occursIn_append, hend]
    intro hmem
    -- neither a character of a name nor the blank is an asterisk
    rcases List.mem_append.1 hmem with h | h
    · exact absurd (List.all_eq_true.1 hword _ h) (by decide)
    · exact absurd (List.mem_singleton.1 h) (by decide)
  rw [List.append_assoc] at hfree
  apply read_comment hdirective hfree
  have hcondition : condition.toList ≠ [] := fun hnil => hne (String.toList_eq_nil_iff.1 hnil)
  rw [Directive.read_condition htrim hcondition (List.all_eq_true.1 hword) hfirst, hread]

/-- A printed token that is no text is read back as a whole, whatever follows it. -/
theorem read_print {kind : TokenKind} (htext : kind.isText = false) (hnormal : kind.isNormal = true)
    (position : Position) (rest : List Char) :
    ∃ taken, kind.print = '/' :: taken ∧
      read position '/' (taken ++ rest) = .ok ⟨kind.lexeme, taken, rest⟩ := by
  cases kind with
  | text content => cases htext
  | otherwise | beginBlock | endIf | endBlock => exact ⟨_, rfl, rfl⟩
  | bind name paren =>
    rw [TokenKind.isNormal, Bool.and_eq_true, Bool.not_eq_true'] at hnormal
    obtain ⟨hvalid, hkeyword⟩ := hnormal
    have hname : Directive.read ([] ++ name.toList) = .ok (.bind name) := by
      rw [List.nil_append, Directive.read_name hvalid, String.ofList_toList]
      rw [String.ofList_toList]
      simpa using hkeyword
    have hdirective : Directive.isDirective ([] ++ name.toList) = true := by
      obtain ⟨c, more, hcons, hc⟩ := Name.exists_cons_of_isValid hvalid
      rw [List.nil_append, hcons]
      exact Directive.isDirective_of_isStart hc more
    cases paren with
    | false =>
      refine ⟨'*' :: (name.toList ++ ['*', '/']) ++ ['\'', 'x', '\''], rfl, ?_⟩
      rw [List.append_assoc]
      exact read_variable hvalid List.not_mem_nil hdirective hname position _
    | true =>
      refine ⟨'*' :: (name.toList ++ ['*', '/']) ++ ['(', '0', ')'], rfl, ?_⟩
      rw [List.append_assoc]
      exact read_variable hvalid List.not_mem_nil hdirective hname position _
  | embedded name quoted =>
    let sign := [if quoted then '#' else '$']
    have hsign : '*' ∉ sign := by cases quoted <;> decide
    have hdirective : Directive.isDirective (sign ++ name.toList) = true := by
      cases quoted <;> rfl
    have hread : Directive.read (sign ++ name.toList) = .ok (.embedded name quoted) := by
      have h := Directive.read_sign hnormal quoted
      rwa [String.ofList_toList] at h
    refine ⟨'*' :: (sign ++ name.toList ++ ['*', '/']) ++ ['\'', 'x', '\''], rfl, ?_⟩
    rw [List.append_assoc]
    exact read_variable hnormal hsign hdirective hread position _
  | ifThen condition =>
    obtain ⟨hne, htrim, hend⟩ := TokenKind.condition_of_isNormal hnormal
    have hword := Directive.withCondition_of_ne hne "IF" .ifThen
    refine ⟨'*' :: (['I', 'F'] ++ ' ' :: condition.toList ++ ['*', '/']), rfl, ?_⟩
    exact read_condition rfl ⟨'I', ['F'], rfl, rfl⟩ hne htrim hend hword position rest
  | elseIf condition =>
    obtain ⟨hne, htrim, hend⟩ := TokenKind.condition_of_isNormal hnormal
    have hword := Directive.withCondition_of_ne hne "ELIF" (.elseIf "ELIF")
    refine ⟨'*' :: (['E', 'L', 'I', 'F'] ++ ' ' :: condition.toList ++ ['*', '/']), rfl, ?_⟩
    exact read_condition rfl ⟨'E', ['L', 'I', 'F'], rfl, rfl⟩ hne htrim hend hword position rest

end Lexeme

end TwoWaySql
