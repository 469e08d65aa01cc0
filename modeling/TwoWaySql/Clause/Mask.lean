import TwoWaySql.Clause.Span
import TwoWaySql.Text.Bytes

/-!
# Masking by bytes

A statement may be masked without a look at its pieces: the number of bytes that a span takes is
reckoned from where its end is found, and so many bytes are cut off. Nothing in such a number says
that it ends behind a character; where it does not, all that is left counts as one span.

The number is that of the span (`spanBytes?_eq`), so what is cut off is the span (`cutSpan_eq`).
`TwoWaySql.Proofs.Unmasking` shows that masks and spans are those of the pieces.
-/

namespace TwoWaySql.Clause

/-- The number of bytes of the span at the start of a text. A span that is not closed takes all. -/
def spanBytes? (s : List Char) : Option Nat :=
  match s with
  | [] => none
  | c :: _ =>
    if c = '\'' ∨ c = '"' then
      some (((Text.findBytes? [c] (Text.behindBytes 1 s)).map (· + 2)).getD (Text.bytes s))
    else if ['-', '-'].isPrefixOf s then
      some ((Text.findBytes? ['\n'] s).getD (Text.bytes s))
    else if ['/', '*'].isPrefixOf s then
      some (((Text.findBytes? ['*', '/'] (Text.behindBytes 2 s)).map (· + 4)).getD (Text.bytes s))
    else if c = mask then some c.utf8Size
    else none

/-- So many bytes of a text, and what follows them: all of it if they do not end behind a
character. -/
def cutSpan (n : Nat) (s : List Char) : List Char × List Char := (Text.splitBytes? n s).getD (s, [])

/-- A quote and the mark that closes its span take a byte each. -/
theorem spanBytes?_quote {quote : Char} (h : quote = '\'' ∨ quote = '"') (s : List Char) :
    spanBytes? (quote :: s) = some (Text.bytes (quotedSpan quote s).1) := by
  have hsize : quote.utf8Size = 1 := by rcases h with rfl | rfl <;> rfl
  have hbehind := Text.behindBytes_utf8Size quote s
  have hfind := Text.findBytes?_singleton quote s
  rw [hsize] at hbehind hfind
  rw [spanBytes?, if_pos h, hbehind, quotedSpan]
  cases hcut : Text.cutThrough? quote s with
  | none =>
    rw [hcut, Option.map_none, Option.map_eq_none_iff] at hfind
    rw [hfind]
    rfl
  | some cut =>
    rw [hcut, Option.map_some, Option.map_eq_some_iff] at hfind
    obtain ⟨n, hn, hbytes⟩ := hfind
    rw [hn]
    show some (n + 2) = some (Text.bytes (quote :: cut.1))
    rw [Text.bytes_cons, ← hbytes, hsize]
    congr 1
    omega

theorem spanBytes?_comment (s : List Char) : spanBytes? ('/' :: '*' :: s) =
    some (((Text.cutComment? s).map fun cut => Text.bytes cut.1 + 4).getD
      (Text.bytes ('/' :: '*' :: s))) := by
  have hbehind : Text.behindBytes 2 ('/' :: '*' :: s) = s := Text.behindBytes_append ['/', '*'] s
  have hstarts : ['/', '*'].isPrefixOf ('/' :: '*' :: s) = true := rfl
  have hline : ['-', '-'].isPrefixOf ('/' :: '*' :: s) = false := rfl
  rw [spanBytes?, if_neg (by decide), hline, if_neg Bool.false_ne_true, if_pos hstarts, hbehind,
    Text.findBytes?_comment, Option.map_map]
  rfl

/-- The number of bytes that is reckoned is that of the span. -/
theorem spanBytes?_eq (s : List Char) :
    spanBytes? s = (span? s).map fun cut => Text.bytes cut.1 := by
  unfold span?
  split
  · rfl
  · next s => exact spanBytes?_quote (.inl rfl) s
  · next s => exact spanBytes?_quote (.inr rfl) s
  · next s => exact congrArg some (Text.findBytes?_getD '\n' ('-' :: '-' :: s))
  · next s =>
    rw [spanBytes?_comment]
    split
    · next before after hcut =>
      rw [hcut]
      show some (Text.bytes before + 4) = some (Text.bytes ('/' :: '*' :: (before ++ ['*', '/'])))
      have hslash : '/'.utf8Size = 1 := rfl
      have hstar : '*'.utf8Size = 1 := rfl
      simp only [Text.bytes_cons, Text.bytes_append, Text.bytes_nil, hslash, hstar]
      congr 1
      omega
    · next hcut =>
      rw [hcut]
      rfl
  · next c s hquote hdouble hhyphen hslash =>
    rw [spanBytes?, if_neg (not_or.2 ⟨hquote, hdouble⟩), Text.isPrefixOf_pair hhyphen,
      Text.isPrefixOf_pair hslash, if_neg Bool.false_ne_true, if_neg Bool.false_ne_true]
    split
    · exact congrArg some (Text.bytes_cons c []).symm
    · rfl

/-- What is cut off at the start of a text is the span there. -/
theorem cutSpan_eq {s span rest : List Char} (h : span? s = some (span, rest)) :
    cutSpan (Text.bytes span) s = (span, rest) := by
  rw [cutSpan, ← append_of_span? h, Text.splitBytes?_append]
  rfl

/-- Behind a span there is less left. -/
theorem length_cutSpan {s : List Char} {n : Nat} (h : spanBytes? s = some n) :
    (cutSpan n s).2.length < s.length := by
  rw [spanBytes?_eq, Option.map_eq_some_iff] at h
  obtain ⟨⟨span, rest⟩, hspan, rfl⟩ := h
  rw [cutSpan_eq hspan]
  exact length_rest_of_span? hspan

/-- A statement with a mask in place of each span, and the spans in order. -/
def maskSpans : List Char → List Char × List (List Char)
  | [] => ([], [])
  | c :: s =>
    match _h : spanBytes? (c :: s) with
    | none => (maskSpans (Text.behindBytes c.utf8Size (c :: s))).map (c :: ·) id
    | some n => (maskSpans (cutSpan n (c :: s)).2).map (mask :: ·) ((cutSpan n (c :: s)).1 :: ·)
termination_by s => s.length
decreasing_by
  · rw [Text.behindBytes_utf8Size]
    exact Nat.lt_succ_self _
  · exact length_cutSpan _h

end TwoWaySql.Clause
