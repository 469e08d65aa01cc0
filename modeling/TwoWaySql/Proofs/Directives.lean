import Mathlib.Data.List.TakeWhile
import TwoWaySql.Lexeme

/-!
# Reading directives

What `Directive.read` makes of the content of a comment that holds a name, a name behind a sign, or
a word with a condition, and what `Lexeme.read` makes of the whole comment. Names hold no blanks and
start with a letter or an underscore, so neither trimming nor the first character leads astray;
a condition that is trimmed is found again behind its word.
-/

namespace TwoWaySql

/-! ## Characters of names -/

namespace Name

theorem isPart_of_isInner {c : Char} (h : isInner c = true) : isPart c = true := by
  rw [isPart, h, Bool.true_or]

theorem isInner_of_isStart {c : Char} (h : isStart c = true) : isInner c = true := by
  simp only [isStart, isInner, Char.isAlphanum, Bool.or_eq_true] at h ⊢
  rcases h with h | h
  · exact .inl (.inl h)
  · exact .inr h

theorem toNat_of_isPart {c : Char} (h : isPart c = true) :
    c.toNat = 46 ∨ (48 ≤ c.toNat ∧ c.toNat ≤ 57) ∨ (65 ≤ c.toNat ∧ c.toNat ≤ 90) ∨
      c.toNat = 95 ∨ (97 ≤ c.toNat ∧ c.toNat ≤ 122) := by
  have hupper (hc : c.isUpper = true) : 65 ≤ c.toNat ∧ c.toNat ≤ 90 := of_decide_eq_true hc
  have hlower (hc : c.isLower = true) : 97 ≤ c.toNat ∧ c.toNat ≤ 122 := by
    obtain ⟨h1, h2⟩ := Bool.and_eq_true_iff.1 hc
    exact ⟨of_decide_eq_true h1, of_decide_eq_true h2⟩
  have hdigit (hc : c.isDigit = true) : 48 ≤ c.toNat ∧ c.toNat ≤ 57 := by
    obtain ⟨h1, h2⟩ := Bool.and_eq_true_iff.1 hc
    exact ⟨of_decide_eq_true h1, of_decide_eq_true h2⟩
  rcases Bool.or_eq_true_iff.1 h with h | h
  · rcases Bool.or_eq_true_iff.1 h with h | h
    · rcases Bool.or_eq_true_iff.1 h with h | h
      · rcases Bool.or_eq_true_iff.1 h with h | h
        · exact .inr (.inr (.inl (hupper h)))
        · exact .inr (.inr (.inr (.inr (hlower h))))
      · exact .inr (.inl (hdigit h))
    · obtain rfl := beq_iff_eq.1 h
      exact .inr (.inr (.inr (.inl rfl)))
  · obtain rfl := beq_iff_eq.1 h
    exact .inl rfl

theorem isBlank_of_isPart {c : Char} (h : isPart c = true) : Text.isBlank c = false := by
  have hn := toNat_of_isPart h
  simp only [Text.isBlank, Text.inRanges, Text.blankRanges, List.any_cons, List.any_nil,
    Bool.or_false, Bool.or_eq_false_iff, Bool.and_eq_false_iff, decide_eq_false_iff_not]
  omega

/-- A character of a text is the separator or stands in one of the parts. -/
theorem mem_segments (separator : Char) {c : Char} {s : List Char} (h : c ∈ s) :
    c = separator ∨ ∃ part ∈ Text.segments separator s, c ∈ part := by
  induction s with
  | nil => cases h
  | cons d rest ih =>
    unfold Text.segments
    split
    · next hd =>
      rcases List.mem_cons.1 h with rfl | h
      · exact .inl hd
      · rcases ih h with h | ⟨part, hp, hc⟩
        · exact .inl h
        · exact .inr ⟨part, List.mem_cons_of_mem _ hp, hc⟩
    · -- `d` joins the first part of the rest
      split
      · next hs => exact absurd hs (Text.segments_ne_nil separator rest)
      · next first parts hs =>
        rcases List.mem_cons.1 h with rfl | h
        · exact .inr ⟨c :: first, List.mem_cons_self, List.mem_cons_self⟩
        · rcases ih h with h | ⟨part, hp, hc⟩
          · exact .inl h
          · rw [hs] at hp
            rcases List.mem_cons.1 hp with rfl | hp
            · exact .inr ⟨d :: part, List.mem_cons_self, List.mem_cons_of_mem _ hc⟩
            · exact .inr ⟨part, List.mem_cons_of_mem _ hp, hc⟩

theorem isPart_of_isValid {name : List Char} (h : isValid name = true) :
    ∀ c ∈ name, isPart c = true := by
  intro c hc
  have hsegments : ∀ part ∈ Text.segments '.' name, part.all isInner = true := by
    unfold isValid at h
    split at h
    · cases h
    · next head parts hs =>
      rw [Bool.and_eq_true] at h
      intro part hp
      rw [hs] at hp
      rcases List.mem_cons.1 hp with rfl | hp
      · have hhead := h.1
        unfold isHead at hhead
        split at hhead
        · rfl
        · exact (Bool.and_eq_true _ _ ▸ hhead).2
      · have hpart := List.all_eq_true.1 h.2 part hp
        exact (Bool.and_eq_true _ _ ▸ hpart).2
  rcases mem_segments '.' hc with rfl | ⟨part, hp, hc⟩
  · rfl
  · exact isPart_of_isInner (List.all_eq_true.1 (hsegments part hp) c hc)

theorem exists_cons_of_isValid {name : List Char} (h : isValid name = true) :
    ∃ c rest, name = c :: rest ∧ isStart c = true := by
  cases name with
  | nil => cases h
  | cons c rest =>
    refine ⟨c, rest, rfl, ?_⟩
    unfold isValid at h
    unfold Text.segments at h
    split at h
    · cases h
    · next head parts hs =>
      have hhead : isHead head = true := (Bool.and_eq_true _ _ ▸ h).1
      split at hs
      · -- a dot in front leaves an empty first segment
        obtain ⟨rfl, -⟩ := List.cons.inj hs
        cases hhead
      · split at hs <;>
        · obtain ⟨rfl, -⟩ := List.cons.inj hs
          exact (Bool.and_eq_true _ _ ▸ hhead).1

end Name

/-! ## Trimming -/

namespace Text

/-- A text that ends in no blank is left alone at its end, whatever stands in front of it. -/
theorem trimEnd_append {s : List Char} {last : Char} (hlast : s.getLast? = some last)
    (hblank : isBlank last = false) (before : List Char) :
    trimEnd (before ++ s) = before ++ s := by
  obtain ⟨first, rfl⟩ := List.getLast?_eq_some_iff.1 hlast
  have hrev : (before ++ (first ++ [last])).reverse =
      last :: (first.reverse ++ before.reverse) := by simp
  rw [trimEnd, hrev, List.dropWhile_cons, if_neg (by simp [hblank]), ← hrev, List.reverse_reverse]

/-- A text that is trimmed and not empty starts and ends with characters that are not blank. -/
theorem trimmed {s : List Char} (h : trim s = s) (hs : s ≠ []) :
    (∃ first rest, s = first :: rest ∧ isBlank first = false) ∧
      ∃ last, s.getLast? = some last ∧ isBlank last = false := by
  have hsuffix : trimStart s <:+ s := List.dropWhile_suffix _
  have hprefix : trimEnd (trimStart s) <+: trimStart s := by
    have hrev := List.dropWhile_suffix isBlank (l := (trimStart s).reverse)
    have hpre := List.reverse_prefix.2 hrev
    rwa [List.reverse_reverse] at hpre
  -- both ways of trimming can only shorten, and together they do not
  have hle : s.length ≤ (trimStart s).length := by
    have := hprefix.length_le
    rwa [show trimEnd (trimStart s) = s from h] at this
  have hstart : trimStart s = s := hsuffix.eq_of_length_le hle
  have hend : trimEnd s = s := by
    rw [show trim s = trimEnd (trimStart s) from rfl, hstart] at h
    exact h
  constructor
  · cases s with
    | nil => exact absurd rfl hs
    | cons first rest =>
      have hfirst := List.dropWhile_eq_self_iff.1 hstart (by simp)
      exact ⟨first, rest, rfl, by simpa using hfirst⟩
  · have hrev : s.reverse.dropWhile isBlank = s.reverse := by
      rw [← List.reverse_eq_iff]
      exact hend
    obtain ⟨last, hlast⟩ := Option.ne_none_iff_exists'.1
      (fun hnone => hs (List.getLast?_eq_none_iff.1 hnone))
    refine ⟨last, hlast, ?_⟩
    obtain ⟨first, rfl⟩ := List.getLast?_eq_some_iff.1 hlast
    have hl := List.dropWhile_eq_self_iff.1 hrev (by simp)
    simpa using hl

theorem trim_space {s : List Char} (h : trim s = s) : trim (' ' :: s) = s := by
  have hblank : isBlank ' ' = true := by decide
  show trimEnd (List.dropWhile isBlank (' ' :: s)) = s
  rw [List.dropWhile_cons, if_pos hblank]
  exact h

end Text

/-! ## The content of a comment -/

namespace Directive

/-- The words that are no names of variables. -/
def keywords : List String := ["IF", "ELIF", "ELSEIF", "ELSE", "BEGIN", "END"]

theorem trimEnd_name {name : List Char} (h : Name.isValid name = true) (before : List Char) :
    Text.trimEnd (before ++ name) = before ++ name := by
  obtain ⟨c, rest, rfl, -⟩ := Name.exists_cons_of_isValid h
  have hlast : (c :: rest).getLast? = some ((c :: rest).getLast (by simp)) :=
    List.getLast?_eq_some_getLast (by simp)
  have hpart := Name.isPart_of_isValid h _ (List.getLast_mem (by simp))
  exact Text.trimEnd_append hlast (Name.isBlank_of_isPart hpart) before

theorem trim_name {name : List Char} (h : Name.isValid name = true) : Text.trim name = name := by
  obtain ⟨c, rest, rfl, hc⟩ := Name.exists_cons_of_isValid h
  have hblank : Text.isBlank c = false :=
    Name.isBlank_of_isPart (Name.isPart_of_isInner (Name.isInner_of_isStart hc))
  have hstart : Text.trimStart (c :: rest) = c :: rest := by
    rw [Text.trimStart, List.dropWhile_cons, if_neg (by simp [hblank])]
  rw [Text.trim, hstart]
  exact trimEnd_name h []

theorem isDirective_of_isStart {c : Char} (h : Name.isStart c = true) (rest : List Char) :
    isDirective (c :: rest) = true := by
  rw [Name.isStart] at h
  rw [isDirective, h]
  rfl

theorem withCondition_of_ne {condition : String} (h : condition ≠ "") (word : String)
    (make : String → Directive) :
    withCondition word condition.toList make = .ok (make condition) := by
  have hne : condition.toList ≠ [] := fun hnil => h (String.toList_eq_nil_iff.1 hnil)
  rw [withCondition, if_neg (by simpa using hne), String.ofList_toList]

/-- A content that starts with a letter or an underscore starts with a word. -/
theorem read_eq_readWord {content : List Char} (htrim : Text.trimEnd content = content)
    (hfirst : ∃ c rest, content = c :: rest ∧ Name.isStart c = true) :
    read content = readWord (content.takeWhile Name.isPart)
      (Text.trim (content.dropWhile Name.isPart)) := by
  obtain ⟨c, rest, rfl, hc⟩ := hfirst
  unfold read
  rw [htrim]
  split
  · next heq =>
    obtain ⟨rfl, -⟩ := List.cons.inj heq
    cases hc
  · next heq =>
    obtain ⟨rfl, -⟩ := List.cons.inj heq
    cases hc
  · rfl

theorem read_name {name : List Char} (h : Name.isValid name = true)
    (hk : String.ofList name ∉ keywords) : read name = .ok (.bind (String.ofList name)) := by
  have hparts := Name.isPart_of_isValid h
  have htake : name.takeWhile Name.isPart = name := List.takeWhile_eq_self_iff.2 hparts
  have hdrop : name.dropWhile Name.isPart = [] := List.dropWhile_eq_nil_iff.2 hparts
  have htrim : Text.trimEnd name = name := trimEnd_name h []
  rw [read_eq_readWord htrim (Name.exists_cons_of_isValid h), htake, hdrop]
  simp only [keywords, List.mem_cons, List.not_mem_nil, or_false, not_or] at hk
  obtain ⟨hif, helif, helseif, helse, hbegin, hend⟩ := hk
  show readWord name [] = _
  unfold readWord
  split
  · next heq => exact absurd heq hif
  · next heq => exact absurd heq helif
  · next heq => exact absurd heq helseif
  · next heq => exact absurd heq helse
  · next heq => exact absurd heq hbegin
  · next heq => exact absurd heq hend
  · rw [List.isEmpty_nil, if_pos rfl, if_pos h]

theorem read_sign {name : List Char} (h : Name.isValid name = true) (quoted : Bool) :
    read ((if quoted then '#' else '$') :: name) =
      .ok (.embedded (String.ofList name) quoted) := by
  have htrim : Text.trimEnd ((if quoted then '#' else '$') :: name) =
      (if quoted then '#' else '$') :: name := trimEnd_name h [_]
  unfold read
  rw [htrim]
  cases quoted <;>
  · simp only [Bool.false_eq_true, if_true, if_false, readEmbedded, trim_name h, h]

/-- A word with a condition behind it. -/
theorem read_condition {condition : List Char} (h : Text.trim condition = condition)
    (hne : condition ≠ []) {word : List Char} (hword : ∀ c ∈ word, Name.isPart c = true)
    (hfirst : ∃ c rest, word = c :: rest ∧ Name.isStart c = true) :
    read (word ++ ' ' :: condition) = readWord word condition := by
  obtain ⟨-, last, hlast, hblank⟩ := Text.trimmed h hne
  have htrim : Text.trimEnd (word ++ ' ' :: condition) = word ++ ' ' :: condition := by
    have happend := Text.trimEnd_append hlast hblank (word ++ [' '])
    simpa using happend
  have hspace : Name.isPart ' ' = false := by decide
  have htake : (word ++ ' ' :: condition).takeWhile Name.isPart = word := by
    rw [List.takeWhile_append_of_pos hword, List.takeWhile_cons, if_neg (by simp [hspace]),
      List.append_nil]
  have hdrop : (word ++ ' ' :: condition).dropWhile Name.isPart = ' ' :: condition := by
    rw [List.dropWhile_append_of_pos hword, List.dropWhile_cons, if_neg (by simp [hspace])]
  obtain ⟨c, rest, rfl, hc⟩ := hfirst
  rw [read_eq_readWord htrim ⟨c, rest ++ ' ' :: condition, rfl, hc⟩, htake, hdrop,
    Text.trim_space h]

end Directive

end TwoWaySql
