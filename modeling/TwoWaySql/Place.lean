import Mathlib.Data.List.Induction
import TwoWaySql.Position
import TwoWaySql.Text.Bytes

/-!
# Places in a source

Whoever reads a source keeps three numbers: how many bytes are behind, in which line that is, and
where the line starts. A column is reckoned from where its line starts. A place moves over a
character, which may end a line (`Place.next`); over all characters up to a number of bytes
(`Place.moveTo`); over bytes that are not looked at, where none of them ends a line (`Place.skip`);
and back over dots (`Place.backOverDots`).

All of these come to moving over characters one by one (`Place.after`), and a place that does so
keeps the position of what it has moved over (`Place.position_after`).
-/

namespace TwoWaySql

/-- A place in a source: the bytes in front of it, its line, and the bytes in front of the line. -/
structure Place where
  offset : Nat
  line : Nat
  lineStart : Nat
  deriving DecidableEq, Repr

namespace Place

def start : Place := ⟨0, 1, 0⟩

def position (p : Place) : Position := ⟨p.offset, p.line, p.offset - p.lineStart + 1⟩

/-- The place behind a character. -/
def next (p : Place) (c : Char) : Place :=
  if c = '\n' then ⟨p.offset + c.utf8Size, p.line + 1, p.offset + c.utf8Size⟩
  else { p with offset := p.offset + c.utf8Size }

theorem offset_next (p : Place) (c : Char) : (p.next c).offset = p.offset + c.utf8Size := by
  unfold next
  split <;> rfl

/-- The place behind so many bytes, none of which ends a line. -/
def skip (p : Place) (bytes : Nat) : Place := { p with offset := p.offset + bytes }

/-- The place behind a text. -/
def after (p : Place) (s : List Char) : Place := s.foldl next p

section

variable (source : List Char)

/-- What is left of the source. -/
def rest (p : Place) : List Char := Text.behindBytes p.offset source

/-- Moves character by character as long as fewer bytes are behind. -/
def moveTo (target : Nat) (p : Place) : Place :=
  if p.offset < target then
    match p.rest source with
    | [] => p
    | c :: _ => (p.next c).moveTo target
  else p
termination_by target - p.offset
decreasing_by
  have hsize := c.utf8Size_pos
  rw [offset_next]
  omega

theorem offset_le_moveTo (target : Nat) (p : Place) :
    p.offset ≤ (p.moveTo source target).offset := by
  fun_induction moveTo source target p with
  | case1 | case3 => exact Nat.le_refl _
  | case2 p _ c _ _ ih =>
    rw [offset_next] at ih
    exact Nat.le_trans (Nat.le_add_right _ _) ih

/-- Moves back as long as the last byte is a dot, but not in front of where a name starts. -/
def backOverDots (first : Nat) (p : Place) : Place :=
  if first < p.offset ∧ Text.byteAt? (p.offset - 1) source = some '.'.toUInt8 then
    backOverDots first { p with offset := p.offset - 1 }
  else p
termination_by p.offset
decreasing_by omega

end

/-! ## Moving over characters -/

section

variable {source s t : List Char} {p : Place}

@[simp]
theorem after_nil (p : Place) : p.after [] = p := rfl

@[simp]
theorem after_cons (p : Place) (c : Char) (s : List Char) : p.after (c :: s) = (p.next c).after s :=
  rfl

theorem after_append (p : Place) (s t : List Char) : p.after (s ++ t) = (p.after s).after t :=
  List.foldl_append

@[simp]
theorem offset_after (p : Place) (s : List Char) :
    (p.after s).offset = p.offset + Text.bytes s := by
  induction s generalizing p with
  | nil => rw [after_nil, Text.bytes_nil, Nat.add_zero]
  | cons c s ih => rw [after_cons, ih, offset_next, Text.bytes_cons, Nat.add_assoc]

theorem lineStart_le_next (h : p.lineStart ≤ p.offset) (c : Char) :
    (p.next c).lineStart ≤ (p.next c).offset := by
  unfold next
  split
  · exact Nat.le_refl _
  · exact Nat.le_trans h (Nat.le_add_right _ _)

theorem lineStart_le_after (h : p.lineStart ≤ p.offset) (s : List Char) :
    (p.after s).lineStart ≤ (p.after s).offset := by
  induction s generalizing p with
  | nil => exact h
  | cons c s ih => exact ih (lineStart_le_next h c)

theorem position_next (h : p.lineStart ≤ p.offset) (c : Char) :
    (p.next c).position = p.position.next c := by
  unfold next position Position.next
  split
  · simp only [Nat.sub_self, Nat.zero_add]
  · have hcolumn : p.offset + c.utf8Size - p.lineStart + 1 =
        p.offset - p.lineStart + 1 + c.utf8Size := by omega
    simp only [hcolumn]

/-- A place behind a text has the position behind the text. -/
theorem position_after (h : p.lineStart ≤ p.offset) (s : List Char) :
    (p.after s).position = p.position.after s := by
  induction s generalizing p with
  | nil => rfl
  | cons c s ih =>
    rw [after_cons, ih (lineStart_le_next h c), position_next h]
    rfl

theorem offset_add_bytes (h : p.rest source = s) (hs : s ≠ []) :
    p.offset + Text.bytes s = Text.bytes source := by
  obtain ⟨front, hsource, hfront⟩ := Text.exists_of_behindBytes h hs
  rw [hsource, Text.bytes_append, hfront]

theorem offset_lt_bytes {c : Char} (h : p.rest source = c :: t) : p.offset < Text.bytes source := by
  have hbytes := offset_add_bytes h (List.cons_ne_nil c t)
  have hsize := c.utf8Size_pos
  rw [Text.bytes_cons] at hbytes
  omega

/-- Behind a part of what is left is the rest of it. -/
theorem rest_after (h : p.rest source = s ++ t) : (p.after s).rest source = t := by
  rw [rest, offset_after, Text.behindBytes_add h]

end

/-! ## Moving by bytes -/

section

variable {source s t : List Char} {p : Place}

/-- Up to where a text ends is over the characters of the text. -/
theorem moveTo_eq (h : p.rest source = s ++ t) :
    p.moveTo source (p.offset + Text.bytes s) = p.after s := by
  induction s generalizing p with
  | nil =>
    have hstays : ¬ p.offset < p.offset + Text.bytes [] := by
      rw [Text.bytes_nil]
      exact Nat.lt_irrefl _
    rw [moveTo, if_neg hstays, after_nil]
  | cons c s ih =>
    have hsize := c.utf8Size_pos
    have hbehind : (p.next c).rest source = s ++ t := rest_after (s := [c]) h
    have htarget : p.offset + Text.bytes (c :: s) = (p.next c).offset + Text.bytes s := by
      rw [Text.bytes_cons, offset_next, Nat.add_assoc]
    rw [moveTo, if_pos (by rw [Text.bytes_cons]; omega), h]
    show (p.next c).moveTo source _ = _
    rw [htarget, ih hbehind, after_cons]

theorem skip_eq (p : Place) (h : '\n' ∉ s) : p.skip (Text.bytes s) = p.after s := by
  induction s generalizing p with
  | nil => rfl
  | cons c s ih =>
    obtain ⟨hc, hs⟩ := not_or.1 (mt List.mem_cons.2 h)
    rw [after_cons, ← ih _ hs, next, if_neg (Ne.symm hc), Text.bytes_cons, skip, skip,
      Nat.add_assoc]

theorem backOverDots_start (source : List Char) (p : Place) :
    p.backOverDots source p.offset = p := by
  rw [backOverDots, if_neg fun h => Nat.lt_irrefl _ h.1]

/-- Behind characters of a byte each the last byte says whether the last one is a dot. -/
theorem backOverDots_eq (h : p.rest source = s ++ t) (hsizes : ∀ c ∈ s, c.utf8Size = 1) :
    (p.skip (Text.bytes s)).backOverDots source p.offset =
      p.skip (Text.bytes (s.reverse.dropWhile (· == '.')).reverse) := by
  induction s using List.reverseRecOn generalizing t with
  | nil => exact backOverDots_start source p
  | append_singleton s c ih =>
    have hsize := hsizes c (List.mem_append_right s List.mem_cons_self)
    have hbytes : Text.bytes (s ++ [c]) = Text.bytes s + 1 := by
      rw [Text.bytes_append, Text.bytes_cons, hsize, Text.bytes_nil]
    obtain ⟨front, hsource, hfront⟩ := Text.exists_of_behindBytes h (by simp)
    have hbyte : Text.byteAt? (p.offset + Text.bytes s) source = some c.toUInt8 := by
      rw [hsource, ← hfront, ← Text.bytes_append, List.append_assoc, List.singleton_append,
        ← List.append_assoc, Text.byteAt?_append hsize]
    have hahead : p.offset < (p.skip (Text.bytes s + 1)).offset := by
      show p.offset < p.offset + (Text.bytes s + 1)
      omega
    have hlast : (p.skip (Text.bytes s + 1)).offset - 1 = p.offset + Text.bytes s := by
      show p.offset + (Text.bytes s + 1) - 1 = _
      omega
    rw [hbytes, backOverDots, hlast, hbyte, List.reverse_append, List.reverse_singleton,
      List.singleton_append, List.dropWhile_cons]
    by_cases hdot : c = '.'
    · subst hdot
      rw [List.append_assoc] at h
      rw [if_pos ⟨hahead, rfl⟩, if_pos (beq_self_eq_true '.'),
        ← ih h fun c hc => hsizes c (List.mem_append_left _ hc)]
      rfl
    · have hother : c.toUInt8 ≠ '.'.toUInt8 := mt (Text.toUInt8_inj hsize rfl) hdot
      rw [if_neg fun hback => hother (Option.some.inj hback.2), if_neg (by simpa using hdot),
        ← hbytes, List.reverse_cons, List.reverse_reverse]

end

end Place

end TwoWaySql
