import TwoWaySql.Encoding.Error
import TwoWaySql.Token

/-!
# Tokens in JSON

The kind of a token is a case, next to the token's position.
-/

namespace TwoWaySql

namespace TokenKind

def toJson : TokenKind → Json
  | text content => .ofCase "Text" (.string content)
  | ifThen condition => .ofCase "If" (.string condition)
  | elseIf condition => .ofCase "ElseIf" (.string condition)
  | otherwise => .string "Else"
  | endIf => .string "EndIf"
  | beginBlock => .string "Begin"
  | endBlock => .string "EndBegin"
  | bind name paren => .ofCase "Bind" (.object [("name", .string name), ("paren", .bool paren)])
  | embedded name quoted =>
    .ofCase "Embedded" (.object [("name", .string name), ("quoted", .bool quoted)])

def ofJson? (origin : Json.Origin) (j : Json) : Option TokenKind := do
  let (name, payload) ← j.case?
  let plain (kind : TokenKind) := if Json.carriesNothing payload then some kind else none
  let worded (make : String → TokenKind) := do return make (← (← payload).text?)
  let flagged (field : String) (make : String → Bool → TokenKind) :=
    match Json.payloadFields? origin ["name", field] payload with
    | some [some name, some flag] => do return make (← name.text?) (← flag.flag?)
    | _ => none
  match name with
  | "Text" => worded text
  | "If" => worded ifThen
  | "ElseIf" => worded elseIf
  | "Else" => plain otherwise
  | "EndIf" => plain endIf
  | "Begin" => plain beginBlock
  | "EndBegin" => plain endBlock
  | "Bind" => flagged "paren" bind
  | "Embedded" => flagged "quoted" embedded
  | _ => none

end TokenKind

namespace Token

def toJson (t : Token) : Json := .object [("kind", t.kind.toJson), ("span", t.position.toJson)]

def ofJson? (origin : Json.Origin) (j : Json) : Option Token :=
  match j.fields? ["kind", "span"] with
  | some [some kind, some position] => do
    return ⟨← TokenKind.ofJson? origin kind, ← Position.ofJson? position⟩
  | _ => none

end Token

end TwoWaySql
