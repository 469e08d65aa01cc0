import TwoWaySql.Text.Split

/-!
# Spans that are no SQL of their own

Literals in single quotes, identifiers in double quotes and comments are hidden while clauses are
tidied up, so that nothing in them is taken for a clause. A hidden span is masked by a control
character; where that character stands in a statement by itself, it is a span too, so masks and
spans always match. A span that is not closed reaches to the end.
-/

namespace TwoWaySql.Clause

/-- The character that stands for a hidden span. -/
def mask : Char := '\x1a'

/-- A span that ends with the next occurrence of its quote. -/
def quotedSpan (quote : Char) (s : List Char) : List Char × List Char :=
  match Text.cutThrough? quote s with
  | some (before, after) => (quote :: before, after)
  | none => (quote :: s, [])

/-- The span at the start of a text, and what follows it. -/
def span? : List Char → Option (List Char × List Char)
  | [] => none
  | '\'' :: s => some (quotedSpan '\'' s)
  | '"' :: s => some (quotedSpan '"' s)
  | '-' :: '-' :: s => some ('-' :: '-' :: s.takeWhile (· != '\n'), s.dropWhile (· != '\n'))
  | '/' :: '*' :: s =>
    match Text.cutComment? s with
    | some (before, after) => some ('/' :: '*' :: (before ++ ['*', '/']), after)
    | none => some ('/' :: '*' :: s, [])
  | c :: s => if c = mask then some ([c], s) else none

/-- A piece of a statement. -/
inductive Piece where
  /-- A character that is SQL. -/
  | live (c : Char)
  | hidden (span : List Char)
  deriving DecidableEq, Repr

/-- The characters of a piece. -/
def Piece.chars : Piece → List Char
  | live c => [c]
  | hidden span => span

/-- The character that stands for a piece. -/
def Piece.masked : Piece → Char
  | live c => c
  | hidden _ => mask

/-- The span that a piece is. -/
def Piece.span? : Piece → Option (List Char)
  | live _ => none
  | hidden span => some span

theorem append_quotedSpan (quote : Char) (s : List Char) :
    (quotedSpan quote s).1 ++ (quotedSpan quote s).2 = quote :: s := by
  unfold quotedSpan
  split
  · next h => simp [Text.append_of_cutThrough? h]
  · simp

/-- A span and what follows it make up the text. -/
theorem append_of_span? {s span rest : List Char} (h : span? s = some (span, rest)) :
    span ++ rest = s := by
  unfold span? at h
  split at h
  · simp at h
  · simp only [Option.some.injEq, Prod.ext_iff] at h
    rw [← h.1, ← h.2, append_quotedSpan]
  · simp only [Option.some.injEq, Prod.ext_iff] at h
    rw [← h.1, ← h.2, append_quotedSpan]
  · simp only [Option.some.injEq, Prod.ext_iff] at h
    simp [← h.1, ← h.2]
  · split at h
    · next hc =>
      simp only [Option.some.injEq, Prod.ext_iff] at h
      have := Text.append_of_cutComment? hc
      simp [← h.1, ← h.2, ← this]
    · simp only [Option.some.injEq, Prod.ext_iff] at h
      simp [← h.1, ← h.2]
  · split at h
    · simp only [Option.some.injEq, Prod.ext_iff] at h
      simp [← h.1, ← h.2]
    · simp at h

/-- No span is empty. -/
theorem ne_nil_of_span? {s span rest : List Char} (h : span? s = some (span, rest)) :
    span ≠ [] := by
  unfold span? at h
  split at h
  · simp at h
  · simp only [Option.some.injEq, Prod.ext_iff] at h
    rw [← h.1]; unfold quotedSpan; split <;> simp
  · simp only [Option.some.injEq, Prod.ext_iff] at h
    rw [← h.1]; unfold quotedSpan; split <;> simp
  · simp only [Option.some.injEq, Prod.ext_iff] at h
    simp [← h.1]
  · split at h <;> simp only [Option.some.injEq, Prod.ext_iff] at h <;> simp [← h.1]
  · split at h
    · simp only [Option.some.injEq, Prod.ext_iff] at h
      simp [← h.1]
    · simp at h

theorem length_rest_of_span? {s span rest : List Char} (h : span? s = some (span, rest)) :
    rest.length < s.length := by
  have hs := congrArg List.length (append_of_span? h)
  have hn := List.length_pos_iff.2 (ne_nil_of_span? h)
  simp only [List.length_append] at hs
  omega

/-- The pieces of a statement. -/
def pieces (s : List Char) : List Piece :=
  match s with
  | [] => []
  | c :: s =>
    match _h : span? (c :: s) with
    | some (span, rest) => .hidden span :: pieces rest
    | none => .live c :: pieces s
termination_by s.length
decreasing_by
  · exact length_rest_of_span? _h
  · simp

/-- The pieces of a statement make it up. -/
theorem flatMap_chars_pieces (s : List Char) : (pieces s).flatMap Piece.chars = s := by
  fun_induction pieces s with
  | case1 => rfl
  | case2 c s span rest h ih =>
    rw [List.flatMap_cons, ih]
    exact append_of_span? h
  | case3 c s _ ih =>
    rw [List.flatMap_cons, ih]
    rfl

/-- The hidden spans of a statement. -/
def spans (s : List Char) : List (List Char) := (pieces s).filterMap Piece.span?

/-- A statement with a mask in place of each hidden span. -/
def maskAll (s : List Char) : List Char := (pieces s).map Piece.masked

/-- A masked text with spans in place of the masks, as long as there are any. -/
def unmask : (spans : List (List Char)) → List Char → List Char
  | _, [] => []
  | [], s => s
  | span :: spans, c :: s =>
    if c = mask then span ++ unmask spans s else c :: unmask (span :: spans) s

end TwoWaySql.Clause
