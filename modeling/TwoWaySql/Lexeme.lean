import TwoWaySql.Directive
import TwoWaySql.Dummy

/-!
# Lexemes

A source text is a row of lexemes: escapes, literals, comments, directives with their dummy values,
names behind a colon, and single characters. `Lexeme.read` reads the first one; it takes at least
one character, and what it takes and what it leaves make up the text (`append_of_read`).
-/

namespace TwoWaySql

/-- What a stretch of the source means, before its nesting is known. -/
inductive Lexeme where
  /-- Text of the statement, escapes undone. -/
  | text (decoded : List Char)
  | bind (name : String) (paren : Bool)
  | embedded (name : String) (quoted : Bool)
  | ifThen (condition : String)
  | elseIf (word condition : String)
  | otherwise
  | beginBlock
  | close
  deriving DecidableEq, Repr

namespace Lexeme

/-- A lexeme that was read: behind the first character it takes `taken` and leaves `rest`. -/
structure Reading where
  lexeme : Lexeme
  taken : List Char
  rest : List Char
  deriving DecidableEq, Repr

/-- The first character stands for itself. -/
def plain (c : Char) (s : List Char) : Reading := ⟨.text [c], [], s⟩

/-- Behind a backslash: the start of a comment, a colon and a backslash lose their meaning. -/
def readEscape : List Char → Reading
  | '/' :: '*' :: rest => ⟨.text ['/', '*'], ['/', '*'], rest⟩
  | ':' :: rest => ⟨.text [':'], [':'], rest⟩
  | '\\' :: rest => ⟨.text ['\\'], ['\\'], rest⟩
  | s => plain '\\' s

/-- Behind a quote: a literal is text, up to and with the next quote. -/
def readLiteral (position : Position) (s : List Char) : Except Error Reading :=
  match Text.cutThrough? '\'' s with
  | some (taken, rest) => .ok ⟨.text ('\'' :: taken), taken, rest⟩
  | none => .error (.parse position .unterminatedString)

/-- Behind a hyphen: a second one starts a comment that is text, with the end of its line. -/
def readHyphen : List Char → Reading
  | '-' :: s =>
    match Text.cutThrough? '\n' s with
    | some (taken, rest) => ⟨.text ('-' :: '-' :: taken), '-' :: taken, rest⟩
    | none => ⟨.text ('-' :: '-' :: s), '-' :: s, []⟩
  | s => plain '-' s

/-- The lexeme of a directive. `position` is where the comment starts, `content` what it holds and
`s` what follows it: a variable takes its dummy value from there. -/
def ofDirective (position : Position) (content s : List Char) (d : Directive) :
    Except Error Reading :=
  let comment := '*' :: (content ++ ['*', '/'])
  let dummy := Dummy.read (position.after ('/' :: comment)) s
  match d with
  | .bind name =>
    dummy.map fun dummy => ⟨.bind name dummy.paren, comment ++ dummy.taken, dummy.rest⟩
  | .embedded name quoted =>
    dummy.map fun dummy => ⟨.embedded name quoted, comment ++ dummy.taken, dummy.rest⟩
  | .ifThen condition => .ok ⟨.ifThen condition, comment, s⟩
  | .elseIf word condition => .ok ⟨.elseIf word condition, comment, s⟩
  | .otherwise => .ok ⟨.otherwise, comment, s⟩
  | .beginBlock => .ok ⟨.beginBlock, comment, s⟩
  | .close => .ok ⟨.close, comment, s⟩

/-- Behind a slash: an asterisk starts a comment, which is a directive or text. -/
def readSlash (position : Position) : List Char → Except Error Reading
  | '*' :: s =>
    match Text.cutComment? s with
    | none => .error (.parse position .unterminatedComment)
    | some (content, rest) =>
      if Directive.isDirective content then
        match Directive.read content with
        | .error fault => .error (.parse position fault)
        | .ok d => ofDirective position content rest d
      else
        let comment := '*' :: (content ++ ['*', '/'])
        .ok ⟨.text ('/' :: comment), comment, rest⟩
  | s => .ok (plain '/' s)

/-- The longest run of name characters that does not end in a dot. -/
def nameRun (s : List Char) : List Char :=
  ((s.takeWhile Name.isPart).reverse.dropWhile (· == '.')).reverse

/-- Behind a colon: a second colon is text, and a letter or an underscore starts a bound name. -/
def readColon : List Char → Reading
  | ':' :: s => ⟨.text [':', ':'], [':'], s⟩
  | c :: s =>
    if Name.isStart c then
      let name := nameRun (c :: s)
      ⟨.bind (String.ofList name) false, name, (c :: s).drop name.length⟩
    else plain ':' (c :: s)
  | [] => plain ':' []

/-- The first lexeme of the text that starts with `c` and goes on with `s`. -/
def read (position : Position) (c : Char) (s : List Char) : Except Error Reading :=
  if c = '\\' then .ok (readEscape s)
  else if c = '\'' then readLiteral position s
  else if c = '-' then .ok (readHyphen s)
  else if c = '/' then readSlash position s
  else if c = ':' then .ok (readColon s)
  else .ok (plain c s)

/-! ## What is taken and what is left -/

theorem append_readEscape (s : List Char) : (readEscape s).taken ++ (readEscape s).rest = s := by
  unfold readEscape
  split <;> rfl

theorem append_readHyphen (s : List Char) : (readHyphen s).taken ++ (readHyphen s).rest = s := by
  unfold readHyphen
  split
  · split
    · next h => simp [Text.append_of_cutThrough? h]
    · simp
  · rfl

theorem nameRun_prefix_takeWhile (s : List Char) : nameRun s <+: s.takeWhile Name.isPart := by
  have hsuffix := List.dropWhile_suffix (· == '.') (l := (s.takeWhile Name.isPart).reverse)
  simpa [nameRun] using List.reverse_prefix.2 hsuffix

/-- The run of name characters starts the text. -/
theorem nameRun_append_drop (s : List Char) : nameRun s ++ s.drop (nameRun s).length = s :=
  List.prefix_iff_eq_append.1 ((nameRun_prefix_takeWhile s).trans (List.takeWhile_prefix _))

theorem append_readColon (s : List Char) : (readColon s).taken ++ (readColon s).rest = s := by
  unfold readColon
  split
  · rfl
  · split
    · exact nameRun_append_drop _
    · rfl
  · rfl

theorem append_of_readLiteral {position : Position} {s : List Char} {r : Reading}
    (h : readLiteral position s = .ok r) : r.taken ++ r.rest = s := by
  unfold readLiteral at h
  split at h
  · next hc =>
    simp only [Except.ok.injEq] at h
    subst h
    exact Text.append_of_cutThrough? hc
  · simp at h

theorem append_of_ofDirective {position : Position} {content s : List Char} {d : Directive}
    {r : Reading} (h : ofDirective position content s d = .ok r) :
    r.taken ++ r.rest = '*' :: (content ++ '*' :: '/' :: s) := by
  have ofDummy (make : Dummy → Lexeme)
      (hd : ((Dummy.read (position.after ('/' :: '*' :: (content ++ ['*', '/']))) s).map
        fun dummy =>
          (⟨make dummy, '*' :: (content ++ ['*', '/']) ++ dummy.taken, dummy.rest⟩ : Reading)) =
        .ok r) :
      r.taken ++ r.rest = '*' :: (content ++ '*' :: '/' :: s) := by
    cases hr : Dummy.read (position.after ('/' :: '*' :: (content ++ ['*', '/']))) s with
    | error e => simp [hr, Except.map] at hd
    | ok dummy =>
      simp only [hr, Except.map, Except.ok.injEq] at hd
      subst hd
      simp [Dummy.append_of_read hr]
  unfold ofDirective at h
  simp only at h
  split at h
  · exact ofDummy (fun dummy => .bind _ dummy.paren) h
  · exact ofDummy (fun _ => .embedded _ _) h
  all_goals
    simp only [Except.ok.injEq] at h
    subst h
    simp

theorem append_of_readSlash {position : Position} {s : List Char} {r : Reading}
    (h : readSlash position s = .ok r) : r.taken ++ r.rest = s := by
  unfold readSlash at h
  split at h
  · split at h
    · simp at h
    · next content rest hc =>
      split at h
      · split at h
        · simp at h
        · simp [append_of_ofDirective h, Text.append_of_cutComment? hc]
      · simp only [Except.ok.injEq] at h
        subst h
        simp [Text.append_of_cutComment? hc]
  · simp only [Except.ok.injEq] at h
    subst h
    rfl

/-- What a lexeme takes behind its first character and what it leaves make up the text. -/
theorem append_of_read {position : Position} {c : Char} {s : List Char} {r : Reading}
    (h : read position c s = .ok r) : r.taken ++ r.rest = s := by
  unfold read at h
  repeat' split at h
  · simp only [Except.ok.injEq] at h; exact h ▸ append_readEscape s
  · exact append_of_readLiteral h
  · simp only [Except.ok.injEq] at h; exact h ▸ append_readHyphen s
  · exact append_of_readSlash h
  · simp only [Except.ok.injEq] at h; exact h ▸ append_readColon s
  · simp only [Except.ok.injEq] at h; exact h ▸ rfl

theorem length_rest_of_read {position : Position} {c : Char} {s : List Char} {r : Reading}
    (h : read position c s = .ok r) : r.rest.length ≤ s.length := by
  have := congrArg List.length (append_of_read h)
  simp only [List.length_append] at this
  omega

end Lexeme

end TwoWaySql
