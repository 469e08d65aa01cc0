import TwoWaySql.Text.Split

/-!
# Places in bytes

A place in a text may be given by the number of bytes of UTF-8 in front of it. Not every number is
a place: inside a character there is none. What is found in a text is found behind a character, so
cutting and finding by bytes come to what the functions on characters say.
-/

namespace TwoWaySql.Text

/-- The number of bytes of a text. -/
def bytes (s : List Char) : Nat := (String.ofList s).utf8ByteSize

/-- What a text holds behind so many bytes: nothing if they end inside a character. -/
def behindBytes : (bytes : Nat) → List Char → List Char
  | 0, s => s
  | _, [] => []
  | bytes, c :: s => if c.utf8Size ≤ bytes then behindBytes (bytes - c.utf8Size) s else []

/-- The first so many bytes of a text, and what follows them, if they end behind a character. -/
def splitBytes? : (bytes : Nat) → List Char → Option (List Char × List Char)
  | 0, s => some ([], s)
  | _, [] => none
  | bytes, c :: s =>
    if c.utf8Size ≤ bytes then (splitBytes? (bytes - c.utf8Size) s).map (Prod.map (c :: ·) id)
    else none

/-- The byte of a text behind so many others. -/
def byteAt? (bytes : Nat) (s : List Char) : Option UInt8 :=
  (s.flatMap String.utf8EncodeChar)[bytes]?

/-- How many bytes stand in front of the first occurrence of one text in another. -/
def findBytes? (needle : List Char) : List Char → Option Nat
  | [] => if needle.isEmpty then some 0 else none
  | c :: s =>
    if needle.isPrefixOf (c :: s) then some 0 else (findBytes? needle s).map (c.utf8Size + ·)

@[simp]
theorem bytes_nil : bytes [] = 0 := by
  rw [bytes, String.ofList_nil, String.utf8ByteSize_empty]

@[simp]
theorem bytes_cons (c : Char) (s : List Char) : bytes (c :: s) = c.utf8Size + bytes s := by
  rw [bytes, ← List.singleton_append, String.ofList_append, String.utf8ByteSize_append,
    ← String.singleton_eq_ofList, String.utf8ByteSize_singleton]
  rfl

@[simp]
theorem bytes_append (s t : List Char) : bytes (s ++ t) = bytes s + bytes t := by
  rw [bytes, String.ofList_append, String.utf8ByteSize_append]
  rfl

/-- Behind the bytes of a part that starts a text is the rest of the text. -/
theorem behindBytes_append (front rest : List Char) :
    behindBytes (String.ofList front).utf8ByteSize (front ++ rest) = rest := by
  show behindBytes (bytes front) (front ++ rest) = rest
  induction front with
  | nil => rw [bytes_nil, List.nil_append, behindBytes]
  | cons c front ih =>
    have hsize := c.utf8Size_pos
    rw [bytes_cons, List.cons_append, behindBytes, if_pos (Nat.le_add_right _ _),
      Nat.add_sub_cancel_left, ih]
    omega

/-- What stands behind so many bytes, if it is not empty, is what the text ends with there. -/
theorem exists_of_behindBytes {n : Nat} {source s : List Char} (h : behindBytes n source = s)
    (hs : s ≠ []) : ∃ front, source = front ++ s ∧ bytes front = n := by
  fun_induction behindBytes n source with
  | case1 source => exact ⟨[], h, bytes_nil⟩
  | case2 | case4 => exact absurd h.symm hs
  | case3 n c source _ hle ih =>
    obtain ⟨front, hsource, hbytes⟩ := ih h
    refine ⟨c :: front, by rw [hsource, List.cons_append], ?_⟩
    rw [bytes_cons, hbytes]
    omega

/-- Behind a part of what stands behind so many bytes is the rest of it. -/
theorem behindBytes_add {n : Nat} {source s t : List Char} (h : behindBytes n source = s ++ t) :
    behindBytes (n + bytes s) source = t := by
  by_cases hnil : s ++ t = []
  · obtain ⟨rfl, rfl⟩ := List.append_eq_nil_iff.1 hnil
    exact h
  · obtain ⟨front, rfl, rfl⟩ := exists_of_behindBytes h hnil
    rw [← bytes_append, ← List.append_assoc]
    exact behindBytes_append (front ++ s) t

theorem length_utf8EncodeChar_flatMap (s : List Char) :
    (s.flatMap String.utf8EncodeChar).length = bytes s := by
  induction s with
  | nil => rw [bytes_nil, List.flatMap_nil, List.length_nil]
  | cons c s ih =>
    rw [bytes_cons, List.flatMap_cons, List.length_append, String.length_utf8EncodeChar, ih]

/-- The byte of a character that has only one. -/
theorem byteAt?_append {c : Char} (hsize : c.utf8Size = 1) (front rest : List Char) :
    byteAt? (bytes front) (front ++ c :: rest) = some c.toUInt8 := by
  rw [byteAt?, List.flatMap_append, List.flatMap_cons, String.utf8EncodeChar_eq_singleton hsize,
    ← length_utf8EncodeChar_flatMap, List.getElem?_append_right (Nat.le_refl _), Nat.sub_self]
  rfl

theorem behindBytes_utf8Size (c : Char) (s : List Char) : behindBytes c.utf8Size (c :: s) = s := by
  have h := behindBytes_append [c] s
  rwa [← String.singleton_eq_ofList, String.utf8ByteSize_singleton] at h

/-- A text falls into two parts at the bytes of the first one. -/
theorem splitBytes?_append (front rest : List Char) :
    splitBytes? (bytes front) (front ++ rest) = some (front, rest) := by
  induction front with
  | nil => rw [bytes_nil, List.nil_append, splitBytes?]
  | cons c front ih =>
    have hsize := c.utf8Size_pos
    rw [bytes_cons, List.cons_append, splitBytes?, if_pos (Nat.le_add_right _ _),
      Nat.add_sub_cancel_left, ih]
    · rfl
    · omega

/-- Characters of one byte each differ in that byte. -/
theorem toUInt8_inj {c d : Char} (hc : c.utf8Size = 1) (hd : d.utf8Size = 1)
    (h : c.toUInt8 = d.toUInt8) : c = d := by
  rw [Char.utf8Size_eq_one_iff, UInt32.le_iff_toNat_le] at hc hd
  have hbytes : c.toNat % 256 = d.toNat % 256 := congrArg UInt8.toNat h
  have hsmall (e : Char) (he : e.val.toNat ≤ 127) : e.toNat % 256 = e.toNat :=
    Nat.mod_eq_of_lt (Nat.lt_of_le_of_lt he (by decide))
  rw [hsmall c hc, hsmall d hd] at hbytes
  exact Char.toNat_inj.1 hbytes

/-! ## Finding -/

theorem isPrefixOf_singleton {c mark : Char} (h : c ≠ mark) (s : List Char) :
    [mark].isPrefixOf (c :: s) = false := by
  rw [List.isPrefixOf_cons_cons, beq_eq_false_iff_ne.2 (Ne.symm h), Bool.false_and]

theorem isPrefixOf_pair {a b c : Char} {s : List Char} (h : ∀ more, c = a → s ≠ b :: more) :
    [a, b].isPrefixOf (c :: s) = false := by
  rw [Bool.eq_false_iff]
  intro hstarts
  obtain ⟨more, hmore⟩ := List.isPrefixOf_iff_prefix.1 hstarts
  obtain ⟨rfl, rfl⟩ := List.cons.inj hmore
  exact h more rfl rfl

/-- A text of one character is found where the text would be cut behind it. -/
theorem findBytes?_singleton (mark : Char) (s : List Char) :
    (findBytes? [mark] s).map (· + mark.utf8Size) =
      (cutThrough? mark s).map fun cut => bytes cut.1 := by
  induction s with
  | nil => rfl
  | cons c s ih =>
    unfold findBytes? cutThrough?
    by_cases hc : c = mark
    · subst hc
      simp
    · have hstarts := isPrefixOf_singleton hc s
      rw [if_neg hc, hstarts, if_neg Bool.false_ne_true, Option.map_map, Option.map_map]
      calc (findBytes? [mark] s).map (fun n => c.utf8Size + n + mark.utf8Size)
          = ((findBytes? [mark] s).map (· + mark.utf8Size)).map (c.utf8Size + ·) := by
            rw [Option.map_map]
            simp only [Function.comp_def, Nat.add_assoc]
        _ = ((cutThrough? mark s).map fun cut => bytes cut.1).map (c.utf8Size + ·) := by rw [ih]
        _ = (cutThrough? mark s).map fun cut => bytes (c :: cut.1) := by
            rw [Option.map_map]
            simp only [Function.comp_def, bytes_cons]

/-- Up to where a character is found, or up to the end, stand the characters that differ from it. -/
theorem findBytes?_getD (mark : Char) (s : List Char) :
    (findBytes? [mark] s).getD (bytes s) = bytes (s.takeWhile (· != mark)) := by
  induction s with
  | nil => rfl
  | cons c s ih =>
    unfold findBytes?
    by_cases hc : c = mark
    · subst hc
      simp
    · have hstarts := isPrefixOf_singleton hc s
      rw [hstarts, if_neg Bool.false_ne_true, List.takeWhile_cons_of_pos (by simpa using hc),
        bytes_cons, bytes_cons, ← ih]
      cases findBytes? [mark] s <;> rfl

/-- The closing mark of a block comment is found where the comment ends. -/
theorem findBytes?_comment (s : List Char) :
    findBytes? ['*', '/'] s = (cutComment? s).map fun cut => bytes cut.1 := by
  fun_induction cutComment? s with
  | case1 => rfl
  | case2 rest => simp [findBytes?]
  | case3 c rest hnot ih =>
    rw [findBytes?, isPrefixOf_pair hnot, if_neg Bool.false_ne_true, ih, Option.map_map,
      Option.map_map]
    simp only [Function.comp_def, bytes_cons]

end TwoWaySql.Text
