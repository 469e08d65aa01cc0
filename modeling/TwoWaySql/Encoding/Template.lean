import TwoWaySql.Encoding.Record
import TwoWaySql.Template

/-!
# Templates in JSON

A template is written as its name and its source; its tree is not written, but read again from the
source.
-/

namespace TwoWaySql

/-- Why a document holds no template. -/
inductive TemplateFault where
  /-- The document has another shape. -/
  | malformed
  /-- The source cannot be read. -/
  | unreadable (e : Error)
  deriving DecidableEq, Repr

/-- The fault in words, if the document has the shape of a template. -/
def TemplateFault.message? : TemplateFault → Option String
  | malformed => none
  | unreadable e => some ("Failed to parse template: " ++ e.message)

namespace Template

def toJson (t : Template) : Json :=
  .object [("name", .ofOption .string t.name), ("source", .string t.source)]

/-- The name and the source in a document. -/
def parts? (j : Json) : Option (Option String × String) :=
  match j.fields? ["name", "source"] with
  | some [name, some source] => do return (← Json.optional? Json.text? name, ← source.text?)
  | _ => none

/-- The template in a document. -/
def ofJson (j : Json) : Except TemplateFault Template :=
  match parts? j with
  | none => .error .malformed
  | some (name, source) =>
    match parse name source with
    | .ok t => .ok t
    | .error e => .error (.unreadable e)

end Template

end TwoWaySql
