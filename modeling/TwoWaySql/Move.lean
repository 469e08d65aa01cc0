import TwoWaySql.Directive
import TwoWaySql.Dummy
import TwoWaySql.Place

/-!
# Moving by bytes

A source may be read without taking it apart: how far a lexeme reaches is reckoned in bytes, from
where its mark is found in what is left, and the place moves there. Nothing in such a number says
that it ends behind a character; where it does not, nothing is left to read behind it.

`TwoWaySql.Proofs.Moves` shows that places move as lexemes are taken off the source
(`Place.step_eq`), so that they keep the positions of scanners.
-/

namespace TwoWaySql

/-- Where a place moves to, and the error that it stops there with, if it does. -/
structure Move where
  place : Place
  failure : Option Error
  deriving DecidableEq, Repr

namespace Place

variable (source : List Char)

/-- From the opening quote of a literal over its closing quote. -/
def passLiteral (p : Place) : Move :=
  let inside := p.skip 1
  match Text.findBytes? ['\''] (inside.rest source) with
  | some n => ⟨inside.moveTo source (inside.offset + n + 1), none⟩
  | none => ⟨inside, some (.parse p.position .unterminatedString)⟩

/-- Over the end of a line. -/
def passLine (p : Place) : Place :=
  p.moveTo source <|
    ((Text.findBytes? ['\n'] (p.rest source)).map (p.offset + · + 1)).getD (Text.bytes source)

theorem offset_lt_passLiteral (p : Place) : p.offset < (p.passLiteral source).place.offset := by
  unfold passLiteral
  dsimp only
  split
  · exact offset_le_moveTo source _ (p.skip 1)
  · exact Nat.lt_succ_self _

/-- Over the parenthesis that closes a group. So many parentheses are open, the first one where the
group starts. -/
def passGroup (opened : Position) (depth : Nat) (p : Place) : Move :=
  match _h : p.rest source with
  | [] => ⟨p, some (.parse opened .unterminatedParen)⟩
  | c :: _ =>
    if c = '\'' then
      match (p.passLiteral source).failure with
      | none => passGroup opened depth (p.passLiteral source).place
      | some _ => p.passLiteral source
    else if c = '(' then passGroup opened (depth + 1) (p.next c)
    else if c = ')' then
      if depth - 1 = 0 then ⟨p.next c, none⟩ else passGroup opened (depth - 1) (p.next c)
    else passGroup opened depth (p.next c)
termination_by Text.bytes source - p.offset
decreasing_by
  all_goals
    have hleft := offset_lt_bytes _h
    have hsize := Char.utf8Size_pos ‹Char›
    have hliteral := offset_lt_passLiteral source p
    have hnext := offset_next p ‹Char›
    omega

/-- Over a run of plain characters. -/
def passRun (p : Place) : Place :=
  match _h : p.rest source with
  | [] => p
  | c :: s => if Dummy.endsRun (c :: s) then p else passRun (p.next c)
termination_by Text.bytes source - p.offset
decreasing_by
  have hleft := offset_lt_bytes _h
  have hsize := c.utf8Size_pos
  rw [offset_next]
  omega

/-- Over a dummy value. -/
def passDummy (p : Place) : Move :=
  match p.rest source with
  | '\'' :: _ => p.passLiteral source
  | '(' :: _ => p.passGroup source p.position 0
  | _ => ⟨p.passRun source, none⟩

/-- Over characters of names, a byte each. -/
def passParts (p : Place) : Place :=
  match _h : p.rest source with
  | [] => p
  | c :: _ => if Name.isPart c then passParts (p.skip 1) else p
termination_by Text.bytes source - p.offset
decreasing_by
  have hleft := offset_lt_bytes _h
  show Text.bytes source - (p.offset + 1) < _
  omega

/-- Over a name. Dots at its end do not belong to it. -/
def passName (p : Place) : Place := (p.passParts source).backOverDots source p.offset

/-- Over a comment, and over the dummy value behind it if it is the comment of a variable. -/
def passComment (p : Place) : Move :=
  match Text.findBytes? ['*', '/'] (Text.behindBytes 2 (p.rest source)) with
  | none => ⟨p, some (.parse p.position .unterminatedComment)⟩
  | some n =>
    let content := (Text.splitBytes? n (Text.behindBytes 2 (p.rest source))).getD ([], [])
    let behind := p.moveTo source (p.offset + (n + 2) + 2)
    if Directive.isDirective content.1 then
      match Directive.read content.1 with
      | .error fault => ⟨behind, some (.parse p.position fault)⟩
      | .ok (.bind _) => behind.passDummy source
      | .ok (.embedded _ _) => behind.passDummy source
      | .ok _ => ⟨behind, none⟩
    else ⟨behind, none⟩

/-- Over the next lexeme. -/
def step (p : Place) : Move :=
  match p.rest source with
  | [] => ⟨p, none⟩
  | '\\' :: '/' :: '*' :: _ => ⟨p.skip 3, none⟩
  | '\\' :: ':' :: _ => ⟨p.skip 2, none⟩
  | '\\' :: '\\' :: _ => ⟨p.skip 2, none⟩
  | '\'' :: _ => p.passLiteral source
  | '-' :: '-' :: _ => ⟨p.passLine source, none⟩
  | '/' :: '*' :: _ => p.passComment source
  | ':' :: ':' :: _ => ⟨p.skip 2, none⟩
  | ':' :: c :: _ => ⟨if Name.isStart c then (p.skip 1).passName source else p.next ':', none⟩
  | c :: _ => ⟨p.next c, none⟩

end Place

end TwoWaySql
