import TwoWaySql.Lexeme
import TwoWaySql.Token

/-!
# Scanning

A source text becomes a row of tokens, and ends there or with an error. Neighbouring texts become
one token; a directive that closes or continues another one is checked against the directives that
are open. Where an error stops the scan, text that no directive has closed off is dropped.
-/

namespace TwoWaySql

/-- The tokens of a source in order, and the error that stopped the scan, if one did. -/
structure Scan where
  tokens : List Token
  failure : Option Error
  deriving DecidableEq, Repr

namespace Scan

def prepend (tokens : List Token) (s : Scan) : Scan := { s with tokens := tokens ++ s.tokens }

/-- The scan as the row of what it yields: tokens, then the error. -/
def items (s : Scan) : List (Except Error Token) :=
  s.tokens.map .ok ++ (s.failure.map Except.error).toList

def toExcept (s : Scan) : Except Error (List Token) :=
  match s.failure with
  | none => .ok s.tokens
  | some e => .error e

end Scan

namespace Token

/-- A directive that is open: a chain of conditions, before or after its last alternative, or an
optional block. -/
inductive Opened where
  | chain (afterElse : Bool)
  | block
  deriving DecidableEq, Repr

/-- The open directives, innermost first, with the places where they start. -/
abbrev Nesting := List (Opened × Position)

/-- The directive that opened a nesting, in words. -/
def Opened.word : Opened → String
  | .chain _ => "IF"
  | .block => "BEGIN"

/-- Whether an alternative may stand inside these open directives: the innermost one is a chain
without a last alternative. -/
def checkAlternate (nesting : Nesting) (position : Position) (word : String) : Except Error Unit :=
  match nesting with
  | (.chain false, _) :: _ => .ok ()
  | (.chain true, _) :: _ => .error (.structural position (.alternateAfterElse word))
  | _ => .error (.structural position (.alternateWithoutIf word))

/-- The token of a lexeme inside the open directives, and the directives open behind it. -/
def accept (nesting : Nesting) (position : Position) :
    Lexeme → Except Error (TokenKind × Nesting)
  | .text decoded => .ok (.text (String.ofList decoded), nesting)
  | .bind name paren => .ok (.bind name paren, nesting)
  | .embedded name quoted => .ok (.embedded name quoted, nesting)
  | .ifThen condition => .ok (.ifThen condition, (.chain false, position) :: nesting)
  | .elseIf word condition =>
    (checkAlternate nesting position word).map fun _ => (.elseIf condition, nesting)
  | .otherwise =>
    (checkAlternate nesting position "ELSE").map fun _ =>
      (.otherwise, match nesting with
        | (_, start) :: outer => (.chain true, start) :: outer
        | [] => [])
  | .beginBlock => .ok (.beginBlock, (.block, position) :: nesting)
  | .close =>
    match nesting with
    | (.chain _, _) :: outer => .ok (.endIf, outer)
    | (.block, _) :: outer => .ok (.endBlock, outer)
    | [] => .error (.structural position .unmatchedEnd)

/-- Text that was read and belongs to a token that is not complete yet. -/
structure Pending where
  text : String
  position : Position
  deriving DecidableEq, Repr

namespace Pending

def none : Pending := ⟨"", .start⟩

/-- The text with more text behind it, which starts at the given position. -/
def push (p : Pending) (position : Position) (decoded : List Char) : Pending :=
  ⟨p.text ++ String.ofList decoded, if p.text.isEmpty then position else p.position⟩

def tokens (p : Pending) : List Token :=
  if p.text.isEmpty then [] else [⟨.text p.text, p.position⟩]

end Pending

/-- Scans what is left of a source, inside open directives and behind pending text. -/
def scanFrom (nesting : Nesting) (pending : Pending) (position : Position) (s : List Char) : Scan :=
  match s with
  | [] =>
    match nesting with
    | [] => ⟨pending.tokens, none⟩
    | (opened, start) :: _ => ⟨[], some (.structural start (.unterminated opened.word))⟩
  | c :: s =>
    match _h : Lexeme.read position c s with
    | .error e => ⟨[], some e⟩
    | .ok ⟨.text decoded, taken, rest⟩ =>
      scanFrom nesting (pending.push position decoded) (position.after (c :: taken)) rest
    | .ok ⟨lexeme, taken, rest⟩ =>
      match accept nesting position lexeme with
      | .error e => ⟨[], some e⟩
      | .ok (kind, nesting) =>
        (scanFrom nesting .none (position.after (c :: taken)) rest).prepend
          (pending.tokens ++ [⟨kind, position⟩])
termination_by s.length
decreasing_by
  all_goals
    have := Lexeme.length_rest_of_read _h
    simp only [List.length_cons] at this ⊢
    omega

def scan (source : String) : Scan := scanFrom [] .none .start source.toList

/-- The tokens of a source, or the first error. -/
def ofSource (source : String) : Except Error (List Token) := (scan source).toExcept

/-! ## Steps of a scan -/

theorem Pending.push_text (p : Pending) (position : Position) (decoded : List Char) :
    (p.push position decoded).text = p.text ++ String.ofList decoded := rfl

theorem Pending.tokens_of_empty {p : Pending} (h : p.text = "") : p.tokens = [] := by
  rw [tokens, h]
  rfl

theorem Pending.kinds_of_ne {p : Pending} (h : p.text ≠ "") :
    p.tokens.map Token.kind = [.text p.text] := by
  rw [tokens, if_neg (by simpa using h)]
  rfl

/-- A lexeme of text joins the pending text. -/
theorem scanFrom_text {c : Char} {s decoded taken rest : List Char} {position : Position}
    (h : Lexeme.read position c s = .ok ⟨.text decoded, taken, rest⟩) (nesting : Nesting)
    (pending : Pending) :
    scanFrom nesting pending position (c :: s) =
      scanFrom nesting (pending.push position decoded) (position.after (c :: taken)) rest := by
  rw [scanFrom]
  split
  · next he => cases h.symm.trans he
  · next he =>
    cases h.symm.trans he
    rfl
  · next hnot he =>
    cases h.symm.trans he
    exact absurd rfl (hnot decoded)

/-- Any other lexeme completes the pending text and becomes a token of its own. -/
theorem scanFrom_accept {c : Char} {s taken rest : List Char} {position : Position}
    {lexeme : Lexeme} {kind : TokenKind} {nesting next : Nesting}
    (h : Lexeme.read position c s = .ok ⟨lexeme, taken, rest⟩)
    (htext : ∀ decoded, lexeme ≠ .text decoded)
    (haccept : accept nesting position lexeme = .ok (kind, next)) (pending : Pending) :
    scanFrom nesting pending position (c :: s) =
      (scanFrom next .none (position.after (c :: taken)) rest).prepend
        (pending.tokens ++ [⟨kind, position⟩]) := by
  rw [scanFrom]
  split
  · next he => cases h.symm.trans he
  · next decoded _ _ he =>
    cases h.symm.trans he
    exact absurd rfl (htext decoded)
  · next he =>
    cases h.symm.trans he
    rw [haccept]

/-- A lexeme that cannot be read stops the scan. -/
theorem scanFrom_error {c : Char} {s : List Char} {position : Position} {e : Error}
    (h : Lexeme.read position c s = .error e) (nesting : Nesting) (pending : Pending) :
    scanFrom nesting pending position (c :: s) = ⟨[], some e⟩ := by
  rw [scanFrom]
  split
  · next he =>
    cases h.symm.trans he
    rfl
  · next he => cases h.symm.trans he
  · next he => cases h.symm.trans he

/-- A lexeme that may not stand where it stands stops the scan. -/
theorem scanFrom_refused {c : Char} {s taken rest : List Char} {position : Position}
    {lexeme : Lexeme} {nesting : Nesting} {e : Error}
    (h : Lexeme.read position c s = .ok ⟨lexeme, taken, rest⟩)
    (hrefused : accept nesting position lexeme = .error e) (pending : Pending) :
    scanFrom nesting pending position (c :: s) = ⟨[], some e⟩ := by
  rw [scanFrom]
  split
  · next he => cases h.symm.trans he
  · next he =>
    cases h.symm.trans he
    cases hrefused
  · next he =>
    cases h.symm.trans he
    rw [hrefused]

/-- A scan that stops before it yields anything drops the pending text, whatever it is. -/
theorem scanFrom_stopped {nesting : Nesting} {pending : Pending} {position : Position}
    {s : List Char} {e : Error} (h : scanFrom nesting pending position s = ⟨[], some e⟩)
    (pending' : Pending) : scanFrom nesting pending' position s = ⟨[], some e⟩ := by
  fun_induction scanFrom nesting pending position s generalizing pending' with
  | case1 pending position => nomatch congrArg Scan.failure h
  | case2 pending position opened start outer => rw [scanFrom, h]
  | case3 nesting pending position c s e hread => rw [scanFrom_error hread, h]
  | case4 nesting pending position c s decoded taken rest hread ih =>
    rw [scanFrom_text hread]
    exact ih h _
  | case5 nesting pending position c s lexeme taken rest hnot hread e haccept =>
    rw [scanFrom_refused hread haccept, h]
  | case6 nesting pending position c s lexeme taken rest hnot hread kind next haccept ih =>
    have hnil := congrArg Scan.tokens h
    simp [Scan.prepend] at hnil

end Token

/-- A scan that is read item by item. -/
structure Cursor where
  source : String
  /-- What is still to be read. -/
  rest : List (Except Error Token)

namespace Cursor

/-- A cursor before the first item of a source. -/
def ofSource (source : String) : Cursor := ⟨source, (Token.scan source).items⟩

/-- The next item, and the cursor behind it. Behind an error and at the end there is none. -/
def next? (c : Cursor) : Option (Except Error Token × Cursor) :=
  match c.rest with
  | [] => none
  | item :: rest => some (item, { c with rest })

def reset (c : Cursor) : Cursor := ofSource c.source

end Cursor

end TwoWaySql
