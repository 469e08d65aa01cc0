import TwoWaySql.Lexeme

/-!
# Lexemes in front of further text

Reading a lexeme looks ahead: for the second character of a mark, for the end of a literal or a
comment, for the end of a name or a dummy value. None of this goes beyond the end of a line, or it
stops within the text. So a text that ends in a newline is read in the same way whatever follows it
(`Lexeme.read_append`). The place of a lexeme matters for errors alone, and the same lemma says so:
where nothing follows, it holds of every text.
-/

namespace TwoWaySql

/-! ## Where a text may go on -/

/-- Nothing follows the text, or it ends in a newline. -/
def Text.Breaks (s behind : List Char) : Prop := behind = [] ∨ s.getLast? = some '\n'

namespace Text.Breaks

variable {s behind : List Char}

/-- What follows starts behind the first character. -/
theorem cons_eq (h : Breaks s behind) {c : Char} {rest : List Char}
    (heq : s ++ behind = c :: rest) : ∃ front, s = c :: front ∧ rest = front ++ behind := by
  cases s with
  | nil =>
    rcases h with rfl | h
    · cases heq
    · cases h
  | cons d front =>
    obtain ⟨rfl, rfl⟩ := List.cons.inj heq
    exact ⟨front, rfl, rfl⟩

theorem tail {c : Char} (h : Breaks (c :: s) behind) (hc : c ≠ '\n') : Breaks s behind := by
  rcases h with h | h
  · exact .inl h
  · cases s with
    | nil => exact absurd (Option.some.inj h) hc
    | cons d rest => exact .inr (by rwa [List.getLast?_cons_cons] at h)

/-- What is left of a text goes on where the text goes on. -/
theorem right {before : List Char} {c : Char} (h : Breaks (before ++ c :: s) behind) :
    Breaks (c :: s) behind := by
  rcases h with h | h
  · exact .inl h
  · right
    rw [List.getLast?_append, List.getLast?_eq_some_getLast (List.cons_ne_nil c s)] at h
    rw [List.getLast?_eq_some_getLast (List.cons_ne_nil c s)]
    exact h

/-- Where something follows, the text has a newline. -/
theorem exists_newline (h : Breaks s behind) :
    behind = [] ∨ ∃ line, s = line ++ ['\n'] := by
  rcases h with h | h
  · exact .inl h
  · exact .inr (List.getLast?_eq_some_iff.1 h)

end Text.Breaks

open Text (Breaks)

/-! ## Cuts -/

theorem Text.cutThrough?_behind {mark : Char} {s before after : List Char}
    (h : cutThrough? mark s = some (before, after)) (behind : List Char) :
    cutThrough? mark (s ++ behind) = some (before, after ++ behind) := by
  rw [← append_of_cutThrough? h, List.append_assoc]
  exact cutThrough?_front h (after ++ behind)

/-- A text with a character can be cut behind it. -/
theorem Text.cutThrough?_isSome {mark : Char} {s : List Char} (h : mark ∈ s) :
    ∃ before after, cutThrough? mark s = some (before, after) := by
  induction s with
  | nil => cases h
  | cons c rest ih =>
    rw [cutThrough?]
    by_cases hc : c = mark
    · exact ⟨[c], rest, if_pos hc⟩
    · obtain ⟨before, after, hcut⟩ := ih ((List.mem_cons.1 h).resolve_left (Ne.symm hc))
      exact ⟨c :: before, after, by rw [if_neg hc, hcut]; rfl⟩

theorem Text.cutComment?_behind {s before after : List Char}
    (h : cutComment? s = some (before, after)) (behind : List Char) :
    cutComment? (s ++ behind) = some (before, after ++ behind) := by
  rw [← append_of_cutComment? h, List.append_assoc]
  exact cutComment?_front h (after ++ behind)

/-! ## Dummy values -/

namespace Dummy

/-- Whether a run ends before a text is a matter of its first two characters. -/
theorem endsRun_cons_cons (c d : Char) (s t : List Char) :
    endsRun (c :: d :: s) = endsRun (c :: d :: t) := by
  by_cases hcomment : c = '/' ∧ d = '*'
  · obtain ⟨rfl, rfl⟩ := hcomment
    rfl
  · by_cases hline : c = '-' ∧ d = '-'
    · obtain ⟨rfl, rfl⟩ := hline
      rfl
    · have hplain (s : List Char) : endsRun (c :: d :: s) =
          (Text.isBlank c || [',', '(', ')', ';', '\''].contains c) := by
        unfold endsRun
        split
        · next heq => cases heq
        · next heq => cases heq; exact absurd ⟨rfl, rfl⟩ hcomment
        · next heq => cases heq; exact absurd ⟨rfl, rfl⟩ hline
        · next heq => cases heq; rfl
      rw [hplain, hplain]

theorem endsRun_append {c : Char} {s behind : List Char} (h : Breaks (c :: s) behind) :
    endsRun (c :: s ++ behind) = endsRun (c :: s) := by
  by_cases hc : c = '\n'
  · subst hc
    rfl
  · have hs := h.tail hc
    cases s with
    | nil =>
      rcases hs with rfl | hs
      · rfl
      · cases hs
    | cons d rest => exact endsRun_cons_cons c d _ _

theorem skipRun_append {s behind : List Char} (h : Breaks s behind) :
    skipRun (s ++ behind) = ((skipRun s).1, (skipRun s).2 ++ behind) := by
  induction s with
  | nil =>
    rcases h with rfl | h
    · rfl
    · cases h
  | cons c rest ih =>
    have hends := endsRun_append h
    rw [List.cons_append] at hends ⊢
    rw [skipRun, skipRun, hends]
    by_cases he : endsRun (c :: rest) = true
    · rw [if_pos he, if_pos he]
      rfl
    · rw [if_neg he, if_neg he]
      have hc : c ≠ '\n' := by
        rintro rfl
        exact he rfl
      rw [ih (h.tail hc)]

/-- A group that is closed is read in the same way wherever it stands, and whatever follows it. -/
theorem skipGroup_append {depth : Nat} {quote quote' : Option Position}
    {position position' : Position} {s taken after : List Char}
    (h : skipGroup depth quote position s = .ok (taken, after))
    (hquote : quote.isSome = quote'.isSome) (behind : List Char) :
    skipGroup depth quote' position' (s ++ behind) = .ok (taken, after ++ behind) := by
  induction s generalizing depth quote quote' position position' taken with
  | nil => cases h
  | cons c rest ih =>
    have onwards {depth : Nat} {quote quote' : Option Position}
        (h : (skipGroup depth quote (position.next c) rest).map (Prod.map (c :: ·) id) =
          .ok (taken, after)) (hquote : quote.isSome = quote'.isSome) :
        (skipGroup depth quote' (position'.next c) (rest ++ behind)).map (Prod.map (c :: ·) id) =
          .ok (taken, after ++ behind) := by
      cases hr : skipGroup depth quote (position.next c) rest with
      | error e =>
        rw [hr] at h
        cases h
      | ok r =>
        obtain ⟨t, a⟩ := r
        rw [hr] at h
        cases h
        rw [ih hr hquote]
        rfl
    rw [List.cons_append]
    unfold skipGroup at h ⊢
    simp only at h ⊢
    cases quote with
    | some _ =>
      cases quote' with
      | none => cases hquote
      | some _ =>
        refine onwards h ?_
        split <;> rfl
    | none =>
      cases quote' with
      | some _ => cases hquote
      | none =>
        simp only at h ⊢
        by_cases hq : c = '\''
        · rw [if_pos hq] at h ⊢
          exact onwards h rfl
        · rw [if_neg hq] at h ⊢
          by_cases ho : c = '('
          · rw [if_pos ho] at h ⊢
            exact onwards h rfl
          · rw [if_neg ho] at h ⊢
            by_cases hc : c = ')'
            · rw [if_pos hc] at h ⊢
              by_cases hd : depth ≤ 1
              · rw [if_pos hd] at h ⊢
                cases h
                rfl
              · rw [if_neg hd] at h ⊢
                exact onwards h rfl
            · rw [if_neg hc] at h ⊢
              exact onwards h rfl

theorem read_append {position : Position} {s behind : List Char} {d : Dummy}
    (h : read position s = .ok d) (hb : Breaks s behind) (position' : Position) :
    read position' (s ++ behind) = .ok { d with rest := d.rest ++ behind } := by
  unfold read at h
  split at h
  · next rest =>
    split at h
    · next taken after hcut =>
      cases h
      simp only [read, List.cons_append, Text.cutThrough?_behind hcut]
    · cases h
  · next rest =>
    split at h
    · next taken after hgroup =>
      cases h
      have hgroup' : skipGroup 0 none position' ('(' :: (rest ++ behind)) =
          .ok (taken, after ++ behind) := skipGroup_append hgroup rfl behind
      simp only [List.cons_append, read, hgroup']
    · cases h
    · cases h
  · next hquote hparen =>
    cases h
    unfold read
    split
    · next rest heq =>
      obtain ⟨front, rfl, -⟩ := hb.cons_eq heq
      exact absurd rfl (hquote front)
    · next rest heq =>
      obtain ⟨front, rfl, -⟩ := hb.cons_eq heq
      exact absurd rfl (hparen front)
    · rw [skipRun_append hb]

end Dummy

/-! ## Lexemes -/

namespace Lexeme

/-- The same reading with further text behind it. -/
def Reading.before (r : Reading) (behind : List Char) : Reading :=
  { r with rest := r.rest ++ behind }

variable {s behind : List Char}

theorem readEscape_append (hb : Breaks s behind) :
    readEscape (s ++ behind) = (readEscape s).before behind := by
  fun_cases readEscape s with
  | case1 | case2 | case3 => rfl
  | case4 s hcomment hcolon hescape =>
    unfold readEscape
    split
    · next rest heq =>
      obtain ⟨front, rfl, hrest⟩ := hb.cons_eq heq
      obtain ⟨front, rfl, -⟩ := (hb.tail (by decide)).cons_eq hrest.symm
      exact absurd rfl (hcomment front)
    · next rest heq =>
      obtain ⟨front, rfl, -⟩ := hb.cons_eq heq
      exact absurd rfl (hcolon front)
    · next rest heq =>
      obtain ⟨front, rfl, -⟩ := hb.cons_eq heq
      exact absurd rfl (hescape front)
    · rfl

theorem readLiteral_append {position : Position} {r : Reading}
    (h : readLiteral position s = .ok r) (position' : Position) (behind : List Char) :
    readLiteral position' (s ++ behind) = .ok (r.before behind) := by
  unfold readLiteral at h
  split at h
  · next taken rest hcut =>
    cases h
    rw [readLiteral, Text.cutThrough?_behind hcut]
    rfl
  · cases h

theorem readHyphen_append (hb : Breaks s behind) :
    readHyphen (s ++ behind) = (readHyphen s).before behind := by
  fun_cases readHyphen s with
  | case1 rest taken after hcut =>
    simp only [List.cons_append, readHyphen, Text.cutThrough?_behind hcut]
    rfl
  | case2 rest hcut =>
    -- without a newline the comment reaches to the end, where nothing follows
    rcases (hb.tail (by decide)).exists_newline with rfl | ⟨line, rfl⟩
    · show readHyphen ('-' :: (rest ++ [])) = _
      rw [List.append_nil, readHyphen, hcut]
      rfl
    · obtain ⟨before, after, hsome⟩ := Text.cutThrough?_isSome
        (List.mem_append_right line (List.mem_singleton_self '\n'))
      rw [hsome] at hcut
      cases hcut
  | case3 s hhyphen =>
    unfold readHyphen
    split
    · next rest heq =>
      obtain ⟨front, rfl, -⟩ := hb.cons_eq heq
      exact absurd rfl (hhyphen front)
    · rfl

theorem ofDirective_append {position : Position} {content : List Char} {d : Directive}
    {r : Reading} (h : ofDirective position content s d = .ok r) (hb : Breaks s behind)
    (position' : Position) :
    ofDirective position' content (s ++ behind) d = .ok (r.before behind) := by
  have ofDummy (make : Dummy → Lexeme) {before : List Char} {position position' : Position}
      (hd : ((Dummy.read position s).map fun dummy =>
        (⟨make dummy, before ++ dummy.taken, dummy.rest⟩ : Reading)) = .ok r)
      (hmake : ∀ dummy rest, make { dummy with rest } = make dummy) :
      ((Dummy.read position' (s ++ behind)).map fun dummy =>
        (⟨make dummy, before ++ dummy.taken, dummy.rest⟩ : Reading)) = .ok (r.before behind) := by
    cases hr : Dummy.read position s with
    | error e =>
      rw [hr] at hd
      cases hd
    | ok dummy =>
      rw [hr] at hd
      cases hd
      rw [Dummy.read_append hr hb position']
      simp only [Except.map, hmake]
      rfl
  cases d with
  | bind name =>
    exact ofDummy (fun dummy => .bind name dummy.paren) h fun _ _ => rfl
  | embedded name quoted =>
    exact ofDummy (fun _ => .embedded name quoted) h fun _ _ => rfl
  | _ =>
    cases h
    rfl

theorem readSlash_append {position : Position} {r : Reading} (h : readSlash position s = .ok r)
    (hb : Breaks s behind) (position' : Position) :
    readSlash position' (s ++ behind) = .ok (r.before behind) := by
  unfold readSlash at h
  split at h
  · next s =>
    split at h
    · cases h
    · next content rest hcut =>
      simp only [List.cons_append, readSlash, Text.cutComment?_behind hcut behind]
      split at h
      · next hdirective =>
        rw [if_pos hdirective]
        split at h
        · cases h
        · next d hread =>
          -- the mark at the end of the comment is no newline, so the line goes on behind it
          rw [← Text.append_of_cutComment? hcut] at hb
          have hmark := (hb.tail (by decide)).right
          have hrest : Breaks rest behind := (hmark.tail (by decide)).tail (by decide)
          exact ofDirective_append h hrest position'
      · next hdirective =>
        cases h
        rw [if_neg hdirective]
        rfl
  · next hcomment =>
    cases h
    unfold readSlash
    split
    · next rest heq =>
      obtain ⟨front, rfl, -⟩ := hb.cons_eq heq
      exact absurd rfl (hcomment front)
    · rfl

theorem nameRun_append (hb : Breaks s behind) : nameRun (s ++ behind) = nameRun s := by
  have htake : (s ++ behind).takeWhile Name.isPart = s.takeWhile Name.isPart := by
    rcases hb.exists_newline with rfl | ⟨line, rfl⟩
    · rw [List.append_nil]
    · have hstop (more : List Char) : ('\n' :: more).takeWhile Name.isPart = [] := rfl
      simp only [List.append_assoc, List.singleton_append, List.takeWhile_append, hstop]
  rw [nameRun, nameRun, htake]

theorem readColon_append (hb : Breaks s behind) :
    readColon (s ++ behind) = (readColon s).before behind := by
  fun_cases readColon s with
  | case1 rest => rfl
  | case2 c rest hcolon hstart name =>
    have hname : nameRun (c :: rest ++ behind) = name := nameRun_append hb
    have hlength : name.length ≤ (c :: rest).length := by
      have hrun := congrArg List.length (nameRun_append_drop (c :: rest))
      rw [List.length_append] at hrun
      exact Nat.le.intro hrun
    rw [List.cons_append] at hname ⊢
    unfold readColon
    split
    · next heq =>
      cases heq
      exact absurd rfl hcolon
    · next heq =>
      cases heq
      rw [if_pos hstart]
      simp only [hname]
      rw [← List.cons_append, List.drop_append_of_le_length hlength]
      rfl
    · next heq => cases heq
  | case3 c rest hcolon hstart =>
    rw [List.cons_append]
    unfold readColon
    split
    · next heq =>
      cases heq
      exact absurd rfl hcolon
    · next heq =>
      cases heq
      rw [if_neg hstart]
      rfl
    · next heq => cases heq
  | case4 =>
    rcases hb with rfl | hb
    · rfl
    · cases hb

/-- A lexeme is read in the same way wherever it stands, and whatever follows its line. -/
theorem read_append {position : Position} {c : Char} {r : Reading}
    (h : read position c s = .ok r) (hb : Breaks (c :: s) behind) (position' : Position) :
    read position' c (s ++ behind) = .ok (r.before behind) := by
  by_cases hline : c = '\n'
  · subst hline
    cases h
    rfl
  have hs := hb.tail hline
  unfold read at h ⊢
  by_cases hescape : c = '\\'
  · rw [if_pos hescape] at h ⊢
    cases h
    rw [readEscape_append hs]
  rw [if_neg hescape] at h ⊢
  by_cases hquote : c = '\''
  · rw [if_pos hquote] at h ⊢
    exact readLiteral_append h position' behind
  rw [if_neg hquote] at h ⊢
  by_cases hhyphen : c = '-'
  · rw [if_pos hhyphen] at h ⊢
    cases h
    rw [readHyphen_append hs]
  rw [if_neg hhyphen] at h ⊢
  by_cases hslash : c = '/'
  · rw [if_pos hslash] at h ⊢
    exact readSlash_append h hs position'
  rw [if_neg hslash] at h ⊢
  by_cases hcolon : c = ':'
  · rw [if_pos hcolon] at h ⊢
    cases h
    rw [readColon_append hs]
  rw [if_neg hcolon] at h ⊢
  cases h
  rfl

/-- A lexeme is read in the same way wherever it stands. -/
theorem read_anywhere {position : Position} {c : Char} {r : Reading}
    (h : read position c s = .ok r) (position' : Position) : read position' c s = .ok r := by
  have hread := read_append h (.inl rfl) position'
  rwa [List.append_nil, Reading.before, List.append_nil] at hread

end Lexeme

end TwoWaySql
