/-!
# Splitting texts

Texts are lists of characters here. The functions cut a text at a separator, at the first occurrence
of a character or of a closing mark, and look for one text inside another. Cutting loses nothing:
what is cut off and what is left make up the text again (`append_of_cutThrough?`,
`append_of_cutComment?`).
-/

namespace TwoWaySql.Text

/-- The parts of a text between the occurrences of a separator. There is one part more than there
are separators, so the empty text has one part. -/
def segments (separator : Char) : List Char → List (List Char)
  | [] => [[]]
  | c :: rest =>
    if c = separator then [] :: segments separator rest
    else match segments separator rest with
      | [] => [[c]]
      | part :: parts => (c :: part) :: parts

/-- The text up to and with the first occurrence of a character, and what follows it. -/
def cutThrough? (mark : Char) : List Char → Option (List Char × List Char)
  | [] => none
  | c :: rest =>
    if c = mark then some ([c], rest)
    else (cutThrough? mark rest).map fun (before, after) => (c :: before, after)

/-- The text before the first closing mark of a block comment, and what follows the mark. -/
def cutComment? : List Char → Option (List Char × List Char)
  | [] => none
  | '*' :: '/' :: rest => some ([], rest)
  | c :: rest => (cutComment? rest).map fun (before, after) => (c :: before, after)

/-- What follows a mark at the start of a text. -/
def after? : (mark : List Char) → List Char → Option (List Char)
  | [], s => some s
  | _ :: _, [] => none
  | m :: mark, c :: s => if m = c then after? mark s else none

/-- Whether a text occurs inside another one. -/
def occursIn (needle : List Char) : List Char → Bool
  | [] => needle.isEmpty
  | c :: rest => needle.isPrefixOf (c :: rest) || occursIn needle rest

/-- Texts in a row, with a comma and a space between each two. -/
def listed (texts : List String) : String := ", ".intercalate texts

/-- A mark and what follows it make up the text. -/
theorem after?_eq_some_iff {mark s rest : List Char} :
    after? mark s = some rest ↔ s = mark ++ rest := by
  induction mark generalizing s with
  | nil => simp [after?]
  | cons m mark ih =>
    cases s with
    | nil => simp [after?]
    | cons c s =>
      unfold after?
      split
      · next h => simp [h, ih]
      · next h => simp [Ne.symm h]

theorem segments_ne_nil (separator : Char) (s : List Char) : segments separator s ≠ [] := by
  cases s with
  | nil => simp [segments]
  | cons c rest =>
    unfold segments
    split
    · simp
    · split <;> simp

/-- Cutting behind a character loses nothing. -/
theorem append_of_cutThrough? {mark : Char} {s before after : List Char}
    (h : cutThrough? mark s = some (before, after)) : before ++ after = s := by
  induction s generalizing before with
  | nil => simp [cutThrough?] at h
  | cons c rest ih =>
    unfold cutThrough? at h
    split at h
    · simp only [Option.some.injEq, Prod.mk.injEq] at h
      simp [← h.1, h.2]
    · obtain ⟨⟨b, a⟩, hb, he⟩ := Option.map_eq_some_iff.1 h
      simp only [Prod.mk.injEq] at he
      obtain ⟨h1, h2⟩ := he
      subst h1 h2
      simp [ih hb]

/-- Cutting at the end of a comment loses nothing but the closing mark. -/
theorem append_of_cutComment? {s before after : List Char}
    (h : cutComment? s = some (before, after)) : before ++ '*' :: '/' :: after = s := by
  fun_induction cutComment? s generalizing before with
  | case1 => simp at h
  | case2 rest =>
    simp only [Option.some.injEq, Prod.mk.injEq] at h
    simp [← h.1, h.2]
  | case3 c rest _ ih =>
    obtain ⟨⟨b, a⟩, hb, he⟩ := Option.map_eq_some_iff.1 h
    simp only [Prod.mk.injEq] at he
    obtain ⟨h1, h2⟩ := he
    subst h1 h2
    simp [ih hb]

/-- Where a text is cut behind a character does not hang on what follows. -/
theorem cutThrough?_front {mark : Char} {s before after : List Char}
    (h : cutThrough? mark s = some (before, after)) (behind : List Char) :
    cutThrough? mark (before ++ behind) = some (before, behind) := by
  induction s generalizing before with
  | nil => cases h
  | cons c rest ih =>
    rw [cutThrough?] at h
    by_cases hc : c = mark
    · rw [if_pos hc] at h
      cases h
      rw [List.singleton_append, cutThrough?, if_pos hc]
    · rw [if_neg hc] at h
      obtain ⟨⟨b, a⟩, hcut, heq⟩ := Option.map_eq_some_iff.1 h
      cases heq
      rw [List.cons_append, cutThrough?, if_neg hc, ih hcut]
      rfl

/-- Where a comment ends does not hang on what follows. -/
theorem cutComment?_front {s before after : List Char}
    (h : cutComment? s = some (before, after)) (behind : List Char) :
    cutComment? (before ++ '*' :: '/' :: behind) = some (before, behind) := by
  fun_induction cutComment? s generalizing before with
  | case1 => cases h
  | case2 rest =>
    cases h
    rfl
  | case3 c rest hnot ih =>
    obtain ⟨⟨b, a⟩, hcut, heq⟩ := Option.map_eq_some_iff.1 h
    cases heq
    rw [List.cons_append, cutComment?, ih hcut]
    · rfl
    · -- a mark that starts here would start here in the text as well
      intro after hc heq
      have hrest := append_of_cutComment? hcut
      cases b with
      | nil => cases heq
      | cons d b =>
        obtain ⟨rfl, -⟩ := List.cons.inj heq
        exact hnot _ hc hrest.symm

end TwoWaySql.Text
