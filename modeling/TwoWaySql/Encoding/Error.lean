import TwoWaySql.Encoding.Record
import TwoWaySql.Error

/-!
# Positions and errors in JSON

An error is a case; a fault inside it is a case again, next to its position.
-/

namespace TwoWaySql

namespace Position

def toJson (p : Position) : Json :=
  .object [("offset", .ofNatural p.offset), ("line", .ofNatural p.line),
    ("column", .ofNatural p.column)]

def ofJson? (j : Json) : Option Position :=
  match j.fields? ["offset", "line", "column"] with
  | some [some offset, some line, some column] => do
    return ⟨← offset.natural?, ← line.natural?, ← column.natural?⟩
  | _ => none

end Position

/-- A case that carries a record with a single text. -/
def Json.ofTextCase (name field text : String) : Json :=
  .ofCase name (.object [(field, .string text)])

/-- The text that a case carries in a record with a single field. -/
def Json.textOfCase? (origin : Json.Origin) (field : String) (payload : Option Json) :
    Option String :=
  match Json.payloadFields? origin [field] payload with
  | some [some text] => text.text?
  | _ => none

namespace SyntaxFault

def toJson : SyntaxFault → Json
  | unterminatedComment => .string "UnterminatedComment"
  | unterminatedString => .string "UnterminatedString"
  | unterminatedParen => .string "UnterminatedParen"
  | invalidIdentifier start => .ofTextCase "InvalidIdentifier" "at_char" start
  | unknownKeyword keyword => .ofTextCase "UnknownKeyword" "keyword" keyword
  | expected description => .ofTextCase "Expected" "description" description

def ofJson? (origin : Json.Origin) (j : Json) : Option SyntaxFault := do
  let (name, payload) ← j.case?
  let plain (fault : SyntaxFault) := if Json.carriesNothing payload then some fault else none
  match name with
  | "UnterminatedComment" => plain unterminatedComment
  | "UnterminatedString" => plain unterminatedString
  | "UnterminatedParen" => plain unterminatedParen
  | "InvalidIdentifier" => (Json.textOfCase? origin "at_char" payload).map invalidIdentifier
  | "UnknownKeyword" => (Json.textOfCase? origin "keyword" payload).map unknownKeyword
  | "Expected" => (Json.textOfCase? origin "description" payload).map expected
  | _ => none

end SyntaxFault

namespace NestingFault

def toJson : NestingFault → Json
  | unmatchedEnd => .string "UnmatchedEnd"
  | alternateWithoutIf directive => .ofTextCase "AlternateWithoutIf" "directive" directive
  | alternateAfterElse directive => .ofTextCase "AlternateAfterElse" "directive" directive
  | unterminated directive => .ofTextCase "Unterminated" "directive" directive
  | tooDeep limit => .ofCase "TooDeep" (.object [("limit", .ofNatural limit)])

def ofJson? (origin : Json.Origin) (j : Json) : Option NestingFault := do
  let (name, payload) ← j.case?
  match name with
  | "UnmatchedEnd" => if Json.carriesNothing payload then some unmatchedEnd else none
  | "AlternateWithoutIf" => (Json.textOfCase? origin "directive" payload).map alternateWithoutIf
  | "AlternateAfterElse" => (Json.textOfCase? origin "directive" payload).map alternateAfterElse
  | "Unterminated" => (Json.textOfCase? origin "directive" payload).map unterminated
  | "TooDeep" =>
    match Json.payloadFields? origin ["limit"] payload with
    | some [some limit] => limit.natural?.map tooDeep
    | _ => none
  | _ => none

end NestingFault

namespace Error

/-- A fault with its position. -/
def located (position : Position) (fault : Json) : Json :=
  .object [("span", position.toJson), ("kind", fault)]

/-- The position and the fault in a document. -/
def located? {α : Type} (fault? : Json → Option α) (j : Json) : Option (Position × α) :=
  match j.fields? ["span", "kind"] with
  | some [some position, some fault] => do return (← Position.ofJson? position, ← fault? fault)
  | _ => none

def toJson : Error → Json
  | parse position fault => .ofCase "Parse" (located position fault.toJson)
  | structural position fault => .ofCase "Structural" (located position fault.toJson)
  | evaluationType expression found =>
    .ofCase "EvaluationType"
      (.object [("expression", .string expression), ("found", .string found)])
  | missingParameter name => .ofTextCase "MissingParameter" "name" name
  | evaluation expression message =>
    .ofCase "Evaluation"
      (.object [("expression", .string expression), ("message", .string message)])

def ofJson? (origin : Json.Origin) (j : Json) : Option Error := do
  let (name, payload) ← j.case?
  match name with
  | "Parse" => do
    let (position, fault) ← located? (SyntaxFault.ofJson? origin) (← payload)
    return parse position fault
  | "Structural" => do
    let (position, fault) ← located? (NestingFault.ofJson? origin) (← payload)
    return structural position fault
  | "EvaluationType" =>
    match Json.payloadFields? origin ["expression", "found"] payload with
    | some [some expression, some found] => do
      return evaluationType (← expression.text?) (← found.text?)
    | _ => none
  | "MissingParameter" => (Json.textOfCase? origin "name" payload).map missingParameter
  | "Evaluation" =>
    match Json.payloadFields? origin ["expression", "message"] payload with
    | some [some expression, some message] => do
      return evaluation (← expression.text?) (← message.text?)
    | _ => none
  | _ => none

end Error

end TwoWaySql
