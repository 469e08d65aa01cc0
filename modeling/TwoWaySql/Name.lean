import TwoWaySql.Text.Split

/-!
# Names

A parameter is named by dotted segments: the first starts with a letter or an underscore, and each
holds at least one letter, digit or underscore. Only ASCII letters and digits count.
-/

namespace TwoWaySql.Name

/-- Whether a character may start a name. -/
def isStart (c : Char) : Bool := c.isAlpha || c == '_'

/-- Whether a character may stand in a segment of a name. -/
def isInner (c : Char) : Bool := c.isAlphanum || c == '_'

/-- Whether a character may stand in a name. -/
def isPart (c : Char) : Bool := isInner c || c == '.'

/-- Whether a text may be the first segment of a name. -/
def isHead (segment : List Char) : Bool :=
  match segment with
  | [] => false
  | c :: _ => isStart c && segment.all isInner

/-- Whether a text may be a later segment of a name. -/
def isSegment (segment : List Char) : Bool := !segment.isEmpty && segment.all isInner

/-- Whether a text is a name. -/
def isValid (name : List Char) : Bool :=
  match Text.segments '.' name with
  | [] => false
  | head :: segments => isHead head && segments.all isSegment

/-- Whether a name leads into a value: it has more than one segment. -/
def isDotted (name : String) : Bool := name.toList.contains '.'

end TwoWaySql.Name
