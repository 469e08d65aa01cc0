/-!
# Positions

A position in a source text: its offset in bytes of UTF-8, its line and its column, lines and
columns counted from one and columns in bytes. `Position.after` moves over characters one by one, so
the position behind a text depends on the text alone (`after_append`).
-/

namespace TwoWaySql

/-- A place in a source text. -/
structure Position where
  offset : Nat
  line : Nat
  column : Nat
  deriving DecidableEq, Repr, Inhabited

namespace Position

/-- The position before the first character. -/
def start : Position := ⟨0, 1, 1⟩

/-- The position behind a character. -/
def next (p : Position) (c : Char) : Position :=
  if c = '\n' then ⟨p.offset + c.utf8Size, p.line + 1, 1⟩
  else ⟨p.offset + c.utf8Size, p.line, p.column + c.utf8Size⟩

/-- The position behind a text. -/
def after (p : Position) (s : List Char) : Position := s.foldl next p

/-- How messages name a position. -/
def text (p : Position) : String := s!"line {p.line}, column {p.column}"

theorem after_append (p : Position) (s t : List Char) :
    p.after (s ++ t) = (p.after s).after t := by
  simp [after]

end Position

end TwoWaySql
