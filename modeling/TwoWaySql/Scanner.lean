import Mathlib.Data.PFun
import TwoWaySql.Text.Bytes
import TwoWaySql.Token.Scan

/-!
# Scanners

A scanner reads a source step by step and hands out what it yields item by item. All that it knows
of where it is is a place in bytes: each step cuts what is still to be read off the source anew, and
a place inside a character would leave nothing to read. A call makes steps until a token is
complete, the source is at its end or a step fails; nothing in a scanner says that it returns.

`TwoWaySql.Proofs.Progress` shows that it does, and that it yields what `Token.scan` says. Its
positions are those of places that move by bytes (`TwoWaySql.Proofs.Moves`).
-/

namespace TwoWaySql

/-- What is passed of a dummy value that has no end: what comes up to the quote of the literal that
is left open, and all of it where none is. -/
def Dummy.passed (s : List Char) : List Char :=
  if s.count '\'' % 2 = 1 then (s.reverse.dropWhile (· != '\'')).reverse else s

/-- What is passed of a text that starts with no lexeme. -/
def Lexeme.passed (c : Char) (s : List Char) : List Char :=
  match c, s with
  | '/', '*' :: s =>
    match Text.cutComment? s with
    | none => []
    | some (content, rest) =>
      let comment := '/' :: '*' :: (content ++ ['*', '/'])
      match Directive.read content with
      | .error _ => comment
      | .ok _ => comment ++ Dummy.passed rest
  | _, _ => [c]

/-- A source that is read step by step. -/
structure Scanner where
  source : String
  position : Position
  nesting : Token.Nesting
  pending : Token.Pending
  /-- Tokens that are complete and were not handed out yet. -/
  queue : List Token
  /-- Whether there are no more steps, behind the end of the source or an error. -/
  finished : Bool
  deriving DecidableEq, Repr

namespace Scanner

/-- A scanner before the first character of a source. -/
def ofSource (source : String) : Scanner := ⟨source, .start, [], .none, [], false⟩

def reset (s : Scanner) : Scanner := ofSource s.source

def atEnd (s : Scanner) : Bool := s.source.utf8ByteSize ≤ s.position.offset

/-- What is still to be read. -/
def rest (s : Scanner) : List Char := Text.behindBytes s.position.offset s.source.toList

/-! ## Steps -/

/-- What a step leaves behind. -/
structure Stepped where
  scanner : Scanner
  failure : Option Error
  deriving DecidableEq, Repr

/-- Ends a scanner behind the last character: an open directive is an error. -/
def finish (s : Scanner) : Stepped where
  scanner := { s with
    queue := s.queue ++ s.pending.tokens
    pending := .none
    finished := true }
  failure := s.nesting.head?.map fun (opened, start) =>
    .structural start (.unterminated opened.word)

/-- Passes a lexeme that starts with `c`. Text joins the pending text, and any other lexeme
completes it and becomes a token of its own. -/
def pass (s : Scanner) (c : Char) (r : Lexeme.Reading) : Stepped :=
  let behind := { s with position := s.position.after (c :: r.taken) }
  match r.lexeme with
  | .text decoded => ⟨{ behind with pending := s.pending.push s.position decoded }, none⟩
  | lexeme =>
    match Token.accept s.nesting s.position lexeme with
    | .error e => ⟨behind, some e⟩
    | .ok (kind, nesting) =>
      let tokens := s.pending.tokens ++ [⟨kind, s.position⟩]
      ⟨{ behind with nesting, pending := .none, queue := s.queue ++ tokens }, none⟩

/-- Reads one lexeme. -/
def step (s : Scanner) : Stepped :=
  if s.atEnd then s.finish
  else
    match s.rest with
    | [] => ⟨s, none⟩
    | c :: rest =>
      match Lexeme.read s.position c rest with
      | .error e => ⟨{ s with position := s.position.after (Lexeme.passed c rest) }, some e⟩
      | .ok r => s.pass c r

/-- A scanner that has failed yields nothing more. -/
def stop (s : Scanner) : Scanner := { s with queue := [], finished := true }

/-! ## Calls -/

/-- One turn of a call: it returns an item, or nothing where there is none, and the scanner behind
it, or it goes on with the scanner behind a step. -/
def turn (s : Scanner) : (Option (Except Error Token) × Scanner) ⊕ Scanner :=
  match s.queue with
  | token :: queue => .inl (some (.ok token), { s with queue })
  | [] =>
    if s.finished then .inl (none, s)
    else
      let stepped := s.step
      match stepped.failure with
      | some e => .inl (some (.error e), stepped.scanner.stop)
      | none => .inr stepped.scanner

/-- What a call returns: turn after turn until one returns. A call that never returns has no
value. -/
def next : Scanner →. Option (Except Error Token) × Scanner :=
  PFun.fix fun s => .some s.turn

/-- What so many calls in a row return, and the scanner behind them. -/
def calls : (count : Nat) → Scanner →. List (Option (Except Error Token)) × Scanner
  | 0, s => .some ([], s)
  | count + 1, s =>
    s.next.bind fun (item, s) => (calls count s).map fun (items, s) => (item :: items, s)

end Scanner

end TwoWaySql
