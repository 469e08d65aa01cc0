import TwoWaySql.Move
import TwoWaySql.Proofs.Progress

/-!
# Places keep the positions of scanners

A scanner takes one lexeme after the other off its source, and its position moves over the
characters of each (`Position.after`). A place reckons in bytes how far it has to move, and keeps
where its line starts in place of a column. This file

1. shows for each part of the source that may have to be passed that a place moves over the very
   characters that the reader of the part takes, and stops with the same error where there is one
   (`Place.passLiteral_eq`, `Place.passGroup_eq`, `Place.passName_eq` and so on);
2. concludes that a place passes lexemes as they are read (`Place.step_eq`);
3. follows scanners step by step: wherever one comes to, a place that has made steps of its own has
   the same position (`Scanner.Reaches.tracked`).
-/

namespace TwoWaySql

/-! ## Passing literals and lines -/

namespace Place

variable {source s t : List Char} {p : Place}

/-- A mark of one byte ends a move behind it where it is found. -/
theorem moveTo_found {mark : Char} {taken rest : List Char} (hsize : mark.utf8Size = 1)
    (h : p.rest source = s) (hcut : Text.cutThrough? mark s = some (taken, rest)) :
    ∃ n, Text.findBytes? [mark] s = some n ∧
      p.moveTo source (p.offset + n + 1) = p.after taken := by
  have hfind := Text.findBytes?_singleton mark s
  rw [hcut, hsize, Option.map_some, Option.map_eq_some_iff] at hfind
  obtain ⟨n, hn, hbytes⟩ := hfind
  rw [← Text.append_of_cutThrough? hcut] at h
  have htarget : p.offset + n + 1 = p.offset + Text.bytes taken := by
    rw [Nat.add_assoc]
    exact congrArg _ hbytes
  exact ⟨n, hn, by rw [htarget, moveTo_eq h]⟩

theorem findBytes?_eq_none {mark : Char} (hcut : Text.cutThrough? mark s = none) :
    Text.findBytes? [mark] s = none := by
  have hfind := Text.findBytes?_singleton mark s
  rwa [hcut, Option.map_none, Option.map_eq_none_iff] at hfind

theorem passLiteral_eq (h : p.rest source = '\'' :: s) : p.passLiteral source =
    match Text.cutThrough? '\'' s with
    | some (taken, _) => ⟨p.after ('\'' :: taken), none⟩
    | none => ⟨p.after ['\''], some (.parse p.position .unterminatedString)⟩ := by
  have hquote : p.skip 1 = p.after ['\''] := skip_eq p (s := ['\'']) (by decide)
  have hinside : (p.after ['\'']).rest source = s := rest_after h
  rw [passLiteral, hquote, hinside]
  cases hcut : Text.cutThrough? '\'' s with
  | none => rw [findBytes?_eq_none hcut]
  | some cut =>
    obtain ⟨n, hn, hmove⟩ := moveTo_found rfl hinside hcut
    rw [hn]
    exact congrArg (Move.mk · none) hmove

theorem passLine_eq (h : p.rest source = s) (hs : s ≠ []) : p.passLine source =
    match Text.cutThrough? '\n' s with
    | some (taken, _) => p.after taken
    | none => p.after s := by
  rw [passLine, h]
  cases hcut : Text.cutThrough? '\n' s with
  | none =>
    rw [findBytes?_eq_none hcut, Option.map_none, Option.getD_none, ← offset_add_bytes h hs]
    exact moveTo_eq (h.trans (List.append_nil s).symm)
  | some cut =>
    obtain ⟨n, hn, hmove⟩ := moveTo_found rfl h hcut
    rw [hn, Option.map_some, Option.getD_some, hmove]

end Place

/-! ## Passing dummy values -/

theorem Text.endsInside_of_cutThrough? {s taken rest : List Char}
    (h : cutThrough? '\'' s = some (taken, rest)) : endsInside true taken = false := by
  induction s generalizing taken with
  | nil => cases h
  | cons c s ih =>
    unfold cutThrough? at h
    split at h
    · next hc =>
      cases h
      rw [hc]
      rfl
    · next hc =>
      obtain ⟨⟨before, after⟩, hcut, heq⟩ := Option.map_eq_some_iff.1 h
      cases heq
      rw [endsInside_cons, beq_eq_false_iff_ne.2 hc]
      exact ih hcut

namespace Dummy

theorem map_taken (c : Char) (front : List Char)
    (result : Except (Option Position) (List Char × List Char)) :
    (result.map (Prod.map (front ++ ·) id)).map (Prod.map (c :: ·) id) =
      result.map (Prod.map (c :: front ++ ·) id) := by
  cases result <;> rfl

/-- Inside a literal the reader of groups goes on behind the quote that closes it. -/
theorem skipGroup_literal (counter : Nat) (start position : Position) (s : List Char) :
    skipGroup counter (some start) position s =
      match Text.cutThrough? '\'' s with
      | none => .error (some start)
      | some (taken, rest) =>
        (skipGroup counter none (position.after taken) rest).map (Prod.map (taken ++ ·) id) := by
  induction s generalizing position with
  | nil => rfl
  | cons c s ih =>
    rw [skipGroup_inside, Text.cutThrough?]
    by_cases hc : c = '\''
    · subst hc
      rfl
    · have hopen : openQuote (some start) position [c] = some start := by
        rw [openQuote, if_neg hc]
        rfl
      rw [hopen, ih, if_neg hc]
      cases Text.cutThrough? '\'' s with
      | none => rfl
      | some cut =>
        obtain ⟨taken, rest⟩ := cut
        exact map_taken c taken _

/-- The reader of groups passes a literal as a whole. -/
theorem skipGroup_quote (counter : Nat) (position : Position) (s : List Char) :
    skipGroup counter none position ('\'' :: s) =
      match Text.cutThrough? '\'' s with
      | none => .error (some position)
      | some (taken, rest) =>
        (skipGroup counter none (position.after ('\'' :: taken)) rest).map
          (Prod.map ('\'' :: taken ++ ·) id) := by
  show (skipGroup counter (some position) (position.next '\'') s).map
    (Prod.map ('\'' :: ·) id) = _
  rw [skipGroup_literal]
  cases Text.cutThrough? '\'' s with
  | none => rfl
  | some cut =>
    obtain ⟨taken, rest⟩ := cut
    exact map_taken '\'' taken _

/-- Complete literals are passed on the way to one that is left open. -/
theorem passed_append {front : List Char} (h : Text.endsInside false front = false)
    (s : List Char) : passed (front ++ s) = front ++ passed s := by
  rw [Text.endsInside, Bool.false_xor, beq_eq_false_iff_ne] at h
  unfold passed
  rw [List.count_append]
  by_cases hodd : s.count '\'' % 2 = 1
  · have hmem : '\'' ∈ s := List.count_pos_iff.1 (by omega)
    have hlast : (s.reverse.dropWhile (· != '\'')).isEmpty = false := by
      rw [List.isEmpty_eq_false_iff, Ne, List.dropWhile_eq_nil_iff]
      intro hnone
      simpa using hnone '\'' (List.mem_reverse.2 hmem)
    rw [if_pos hodd, if_pos (by omega), List.reverse_append, List.dropWhile_append, hlast]
    simp
  · rw [if_neg hodd, if_neg (by omega)]

/-- Of a literal that is left open the quote is passed. -/
theorem passed_quote {s : List Char} (h : '\'' ∉ s) : passed ('\'' :: s) = ['\''] := by
  have hodd : ('\'' :: s).count '\'' % 2 = 1 := by
    rw [List.count_cons_self, List.count_eq_zero.2 h]
  have hskipped : s.reverse.dropWhile (· != '\'') = [] := by
    rw [List.dropWhile_eq_nil_iff]
    intro c hc
    rw [bne_iff_ne]
    rintro rfl
    exact h (List.mem_reverse.1 hc)
  rw [passed, if_pos hodd, List.reverse_cons, List.dropWhile_append, hskipped]
  rfl

end Dummy

namespace Place

variable {source s t : List Char} {p : Place} {opened : Position}

/-- The move over a group, or up to where the reader of groups has come to. -/
def groupMove (p : Place) (opened : Position) (s : List Char) :
    Except (Option Position) (List Char × List Char) → Move
  | .ok (taken, _) => ⟨p.after taken, none⟩
  | .error none => ⟨p.after (Dummy.passed s), some (.parse opened .unterminatedParen)⟩
  | .error (some quote) => ⟨p.after (Dummy.passed s), some (.parse quote .unterminatedString)⟩

/-- What was read behind a front that leaves no literal open. -/
theorem groupMove_map {front : List Char} (h : Text.endsInside false front = false) (s : List Char)
    (result : Except (Option Position) (List Char × List Char)) :
    groupMove p opened (front ++ s) (result.map (Prod.map (front ++ ·) id)) =
      groupMove (p.after front) opened s result := by
  rcases result with (_ | quote) | ⟨taken, rest⟩
  · show (⟨p.after (Dummy.passed (front ++ s)), _⟩ : Move) = _
    rw [Dummy.passed_append h, after_append]
    rfl
  · show (⟨p.after (Dummy.passed (front ++ s)), _⟩ : Move) = _
    rw [Dummy.passed_append h, after_append]
    rfl
  · show (⟨p.after (front ++ taken), _⟩ : Move) = _
    rw [after_append]
    rfl

/-- What is read of a group behind a character that starts no literal. -/
theorem groupMove_next {c : Char} {depth next : Nat} (hline : p.lineStart ≤ p.offset)
    (hrest : p.rest source = c :: s) (hc : c ≠ '\'')
    (hread : Dummy.skipGroup depth none p.position (c :: s) =
      (Dummy.skipGroup next none (p.position.next c) s).map (Prod.map (c :: ·) id)) :
    groupMove p opened (p.rest source)
        (Dummy.skipGroup depth none p.position (p.rest source)) =
      groupMove (p.next c) opened ((p.next c).rest source)
        (Dummy.skipGroup next none (p.next c).position ((p.next c).rest source)) := by
  have hbehind : (p.next c).rest source = s := rest_after (s := [c]) hrest
  have houtside : Text.endsInside false [c] = false := by
    rw [Text.endsInside_cons, beq_eq_false_iff_ne.2 hc]
    rfl
  rw [hbehind, hrest, position_next hline, hread]
  exact groupMove_map houtside s _

theorem passGroup_eq (source : List Char) (opened : Position) (hline : p.lineStart ≤ p.offset)
    (depth : Nat) : p.passGroup source opened depth =
      groupMove p opened (p.rest source)
        (Dummy.skipGroup depth none p.position (p.rest source)) := by
  have hnone (p : Place) {c : Char} (hc : c ≠ '\'') :
      Dummy.openQuote none p.position [c] = none := by
    rw [Dummy.openQuote, if_neg hc]
    rfl
  fun_induction passGroup source opened depth p with
  | case1 depth p hrest =>
    rw [hrest]
    rfl
  | case2 depth p s hcloses hrest ih =>
    have hliteral := passLiteral_eq hrest
    cases hcut : Text.cutThrough? '\'' s with
    | none =>
      rw [hliteral, hcut] at hcloses
      cases hcloses
    | some cut =>
      obtain ⟨taken, behind⟩ := cut
      rw [hcut] at hliteral
      rw [hliteral] at ih ⊢
      have hsplit : p.rest source = '\'' :: taken ++ behind := by
        rw [hrest, List.cons_append, Text.append_of_cutThrough? hcut]
      have houtside : Text.endsInside false ('\'' :: taken) = false := by
        rw [Text.endsInside_cons]
        exact Text.endsInside_of_cutThrough? hcut
      rw [ih (lineStart_le_after hline _), rest_after hsplit, position_after hline, hrest,
        Dummy.skipGroup_quote, hcut, ← Text.append_of_cutThrough? hcut]
      exact (groupMove_map houtside behind _).symm
  | case3 depth p s e hopen hrest =>
    have hliteral := passLiteral_eq hrest
    cases hcut : Text.cutThrough? '\'' s with
    | none =>
      rw [hliteral, hcut, hrest, Dummy.skipGroup_quote, hcut]
      show _ = (⟨p.after (Dummy.passed ('\'' :: s)), _⟩ : Move)
      rw [Dummy.passed_quote (Text.not_mem_of_cutThrough? hcut)]
    | some cut =>
      rw [hliteral, hcut] at hopen
      cases hopen
  | case4 depth p s hrest hc ih =>
    rw [ih (lineStart_le_next hline _), groupMove_next hline hrest hc]
    rw [Dummy.skipGroup_outside, if_pos rfl, hnone p hc]
  | case5 depth p s hlast hrest hc =>
    have hcounter : depth ≤ 1 := by omega
    rw [hrest, Dummy.skipGroup_outside, if_neg (by decide), if_pos rfl, if_pos hcounter]
    rfl
  | case6 depth p s hlast hrest hc _ ih =>
    have hcounter : ¬ depth ≤ 1 := by omega
    rw [ih (lineStart_le_next hline _), groupMove_next hline hrest hc]
    rw [Dummy.skipGroup_outside, if_neg (by decide), if_pos rfl, if_neg hcounter, hnone p hc]
  | case7 depth p c s hrest hc hopening hclosing ih =>
    rw [ih (lineStart_le_next hline _), groupMove_next hline hrest hc]
    rw [Dummy.skipGroup_outside, if_neg hopening, if_neg hclosing, hnone p hc]

theorem passRun_eq (source : List Char) (p : Place) :
    p.passRun source = p.after (Dummy.skipRun (p.rest source)).1 := by
  fun_induction passRun source p with
  | case1 p hrest =>
    rw [hrest]
    rfl
  | case2 p c s hrest hends =>
    rw [hrest, Dummy.skipRun, if_pos hends]
    rfl
  | case3 p c s hrest hgoes ih =>
    have hbehind : (p.next c).rest source = s := rest_after (s := [c]) hrest
    rw [ih, hrest, Dummy.skipRun, if_neg hgoes, hbehind]
    rfl

/-- A dummy value is passed as it is read. -/
theorem passDummy_eq (source : List Char) (hline : p.lineStart ≤ p.offset) : p.passDummy source =
    match Dummy.read p.position (p.rest source) with
    | .ok dummy => ⟨p.after dummy.taken, none⟩
    | .error e => ⟨p.after (Dummy.passed (p.rest source)), some e⟩ := by
  have hgroup := passGroup_eq source p.position hline 0
  have hrun := passRun_eq source p
  unfold passDummy
  cases hrest : p.rest source with
  | nil =>
    rw [hrest] at hrun
    exact congrArg (Move.mk · none) hrun
  | cons c s =>
    rw [hrest] at hgroup hrun
    split
    · next hquote =>
      cases hquote
      rw [passLiteral_eq hrest, Dummy.read]
      cases hcut : Text.cutThrough? '\'' s with
      | none => simp only [Dummy.passed_quote (Text.not_mem_of_cutThrough? hcut)]
      | some cut => rfl
    · next hopening =>
      cases hopening
      rw [hgroup, Dummy.read]
      rcases Dummy.skipGroup 0 none p.position ('(' :: s) with (_ | quote) | ⟨taken, rest⟩ <;> rfl
    · next hquote hopening =>
      have hread : Dummy.read p.position (c :: s) =
          .ok ⟨false, (Dummy.skipRun (c :: s)).1, (Dummy.skipRun (c :: s)).2⟩ := by
        unfold Dummy.read
        split
        · next heq => exact absurd heq (hquote _)
        · next heq => exact absurd heq (hopening _)
        · rfl
      rw [hread, hrun]

/-! ## Passing names -/

/-- Names are made of characters of a byte each. -/
theorem utf8Size_of_isPart {c : Char} (h : Name.isPart c = true) : c.utf8Size = 1 := by
  have hpart := Name.toNat_of_isPart h
  have hsmall : c.toNat ≤ 127 := by omega
  exact Char.utf8Size_eq_one_iff.2 (UInt32.le_iff_toNat_le.2 hsmall)

theorem passParts_eq (p : Place) :
    p.passParts source = p.skip (Text.bytes ((p.rest source).takeWhile Name.isPart)) := by
  fun_induction passParts source p with
  | case1 p hrest =>
    rw [hrest]
    rfl
  | case2 p c s hrest hpart ih =>
    have hsize := utf8Size_of_isPart hpart
    have hbehind : (p.skip 1).rest source = s := by
      have hadd := Text.behindBytes_add (s := [c]) hrest
      rwa [Text.bytes_cons, hsize, Text.bytes_nil] at hadd
    rw [ih, hrest, hbehind, List.takeWhile_cons_of_pos hpart, Text.bytes_cons, hsize]
    simp only [skip, Nat.add_assoc]
  | case3 p c s hrest hpart =>
    rw [hrest, List.takeWhile_cons_of_neg hpart]
    rfl

theorem passName_eq (p : Place) :
    p.passName source = p.after (Lexeme.nameRun (p.rest source)) := by
  have hsplit : p.rest source = (p.rest source).takeWhile Name.isPart ++
      (p.rest source).dropWhile Name.isPart := List.takeWhile_append_dropWhile.symm
  have hparts : ∀ c ∈ (p.rest source).takeWhile Name.isPart, Name.isPart c = true :=
    fun c hc => List.mem_takeWhile_imp hc
  have hsizes : ∀ c ∈ (p.rest source).takeWhile Name.isPart, c.utf8Size = 1 :=
    fun c hc => utf8Size_of_isPart (hparts c hc)
  have hline : '\n' ∉ Lexeme.nameRun (p.rest source) := by
    intro hmem
    cases hparts '\n' ((Lexeme.nameRun_prefix_takeWhile _).subset hmem)
  rw [passName, passParts_eq, backOverDots_eq hsplit hsizes, ← skip_eq p hline]
  rfl

end Place

/-! ## Passing lexemes -/

/-- A character that starts no lexeme of another kind stands for itself. -/
theorem Lexeme.read_eq_plain {c : Char} {s : List Char} (position : Position)
    (hcomment : ∀ t, c = '\\' → s = '/' :: '*' :: t → False)
    (hcolon : ∀ t, c = '\\' → s = ':' :: t → False)
    (hbackslash : ∀ t, c = '\\' → s = '\\' :: t → False) (hquote : c = '\'' → False)
    (hhyphen : ∀ t, c = '-' → s = '-' :: t → False) (hslash : ∀ t, c = '/' → s = '*' :: t → False)
    (hcast : ∀ t, c = ':' → s = ':' :: t → False)
    (hname : ∀ d t, c = ':' → s = d :: t → False) : read position c s = .ok (plain c s) := by
  unfold read
  split_ifs with hescape hline hcomments hnames
  · subst hescape
    unfold readEscape
    split
    · exact (hcomment _ rfl rfl).elim
    · exact (hcolon _ rfl rfl).elim
    · exact (hbackslash _ rfl rfl).elim
    · rfl
  · subst hline
    unfold readHyphen
    split
    · exact (hhyphen _ rfl rfl).elim
    · rfl
  · subst hcomments
    unfold readSlash
    split
    · exact (hslash _ rfl rfl).elim
    · rfl
  · subst hnames
    unfold readColon
    split
    · exact (hcast _ rfl rfl).elim
    · exact (hname _ _ rfl rfl).elim
    · rfl
  · rfl

namespace Place

variable {source s t : List Char} {p : Place}

/-- A move behind the mark that ends a comment is one over the comment. -/
theorem moveTo_comment {content rest : List Char} (hrest : p.rest source = '/' :: '*' :: s)
    (hcut : Text.cutComment? s = some (content, rest)) :
    p.rest source = '/' :: '*' :: (content ++ ['*', '/']) ++ rest ∧
      p.moveTo source (p.offset + (Text.bytes content + 2) + 2) =
        p.after ('/' :: '*' :: (content ++ ['*', '/'])) := by
  have hsplit : p.rest source = '/' :: '*' :: (content ++ ['*', '/']) ++ rest := by
    rw [hrest, ← Text.append_of_cutComment? hcut]
    simp
  have hslash : '/'.utf8Size = 1 := rfl
  have hstar : '*'.utf8Size = 1 := rfl
  have htarget : p.offset + (Text.bytes content + 2) + 2 =
      p.offset + Text.bytes ('/' :: '*' :: (content ++ ['*', '/'])) := by
    simp only [Text.bytes_cons, Text.bytes_append, Text.bytes_nil, hslash, hstar]
    omega
  exact ⟨hsplit, by rw [htarget, moveTo_eq hsplit]⟩

/-- Behind the comment of a variable its dummy value is passed as it is read. -/
theorem passDummy_behind {c : Char} {taken rest : List Char} (hline : p.lineStart ≤ p.offset)
    (hsplit : p.rest source = c :: taken ++ rest) (make : Dummy → Lexeme) :
    (p.after (c :: taken)).passDummy source =
      match (Dummy.read (p.position.after (c :: taken)) rest).map fun dummy =>
        (⟨make dummy, taken ++ dummy.taken, dummy.rest⟩ : Lexeme.Reading) with
      | .ok r => ⟨p.after (c :: r.taken), none⟩
      | .error e => ⟨p.after (c :: taken ++ Dummy.passed rest), some e⟩ := by
  have hdummy := passDummy_eq source (lineStart_le_after hline (c :: taken))
  rw [rest_after hsplit, position_after hline] at hdummy
  rw [hdummy]
  cases Dummy.read (p.position.after (c :: taken)) rest with
  | ok dummy => exact congrArg (Move.mk · none) (after_append p (c :: taken) dummy.taken).symm
  | error e => exact congrArg (Move.mk · (some e)) (after_append p (c :: taken) _).symm

theorem passComment_eq (hline : p.lineStart ≤ p.offset) (hrest : p.rest source = '/' :: '*' :: s) :
    p.passComment source =
      match Lexeme.readSlash p.position ('*' :: s) with
      | .ok r => ⟨p.after ('/' :: r.taken), none⟩
      | .error e => ⟨p.after (Lexeme.passed '/' ('*' :: s)), some e⟩ := by
  have hinside : Text.behindBytes 2 ('/' :: '*' :: s) = s := Text.behindBytes_append ['/', '*'] s
  rw [passComment, hrest, hinside, Text.findBytes?_comment, Lexeme.readSlash, Lexeme.passed]
  cases hcut : Text.cutComment? s with
  | none => rfl
  | some cut =>
    obtain ⟨content, rest⟩ := cut
    obtain ⟨hsplit, hmove⟩ := moveTo_comment hrest hcut
    have hcontent : Text.splitBytes? (Text.bytes content) s =
        some (content, '*' :: '/' :: rest) := by
      rw [← Text.append_of_cutComment? hcut, Text.splitBytes?_append]
    simp only [Option.map_some, hcontent, Option.getD_some, hmove]
    split
    · cases hread : Directive.read content with
      | error fault => rfl
      | ok d =>
        cases d with
        | bind name => exact passDummy_behind hline hsplit fun dummy => .bind name dummy.paren
        | embedded name quoted => exact passDummy_behind hline hsplit fun _ => .embedded name quoted
        | ifThen | elseIf | otherwise | beginBlock | close => rfl
    · rfl

theorem passLine_hyphens (hrest : p.rest source = '-' :: '-' :: s) :
    p.passLine source = p.after ('-' :: (Lexeme.readHyphen ('-' :: s)).taken) := by
  have hcut : Text.cutThrough? '\n' ('-' :: '-' :: s) =
      (Text.cutThrough? '\n' s).map fun cut => ('-' :: '-' :: cut.1, cut.2) := by
    rw [Text.cutThrough?, if_neg (by decide), Text.cutThrough?, if_neg (by decide),
      Option.map_map]
    rfl
  rw [passLine_eq hrest (List.cons_ne_nil _ _), hcut, Lexeme.readHyphen]
  cases Text.cutThrough? '\n' s <;> rfl

/-- Behind a colon stands a name where a character may start one. -/
theorem passName_colon {c : Char} (hrest : p.rest source = ':' :: c :: s) (hc : c ≠ ':') :
    (if Name.isStart c then (p.skip 1).passName source else p.next ':') =
      p.after (':' :: (Lexeme.readColon (c :: s)).taken) := by
  have hcolon : p.skip 1 = p.after [':'] := skip_eq p (s := [':']) (by decide)
  have hbehind : (p.after [':']).rest source = c :: s := rest_after hrest
  have hread : Lexeme.readColon (c :: s) =
      if Name.isStart c then
        ⟨.bind (String.ofList (Lexeme.nameRun (c :: s))) false, Lexeme.nameRun (c :: s),
          (c :: s).drop (Lexeme.nameRun (c :: s)).length⟩
      else Lexeme.plain ':' (c :: s) := by
    rw [Lexeme.readColon]
    exact hc
  rw [hcolon, passName_eq, hbehind, hread]
  split <;> rfl

/-- A place passes a lexeme as it is read. -/
theorem step_eq {c : Char} (hline : p.lineStart ≤ p.offset) (hrest : p.rest source = c :: s) :
    p.step source =
      match Lexeme.read p.position c s with
      | .ok r => ⟨p.after (c :: r.taken), none⟩
      | .error e => ⟨p.after (Lexeme.passed c s), some e⟩ := by
  -- the lexemes that hold no line break are skipped
  have hskip (front : List Char) (h : '\n' ∉ front) :
      (⟨p.skip (Text.bytes front), none⟩ : Move) = ⟨p.after front, none⟩ := by
    rw [skip_eq p h]
  unfold step
  rw [hrest]
  split
  · next heq => cases heq
  · next heq =>
    cases heq
    exact hskip ['\\', '/', '*'] (by decide)
  · next heq =>
    cases heq
    exact hskip ['\\', ':'] (by decide)
  · next heq =>
    cases heq
    exact hskip ['\\', '\\'] (by decide)
  · next heq =>
    cases heq
    rw [passLiteral_eq hrest]
    show _ = match Lexeme.readLiteral p.position s with
      | .ok r => (⟨p.after ('\'' :: r.taken), none⟩ : Move)
      | .error e => ⟨p.after ['\''], some e⟩
    unfold Lexeme.readLiteral
    cases Text.cutThrough? '\'' s <;> rfl
  · next t heq =>
    cases heq
    exact congrArg (Move.mk · none) (passLine_hyphens hrest)
  · next heq =>
    cases heq
    exact passComment_eq hline hrest
  · next heq =>
    cases heq
    exact hskip [':', ':'] (by decide)
  · next first t hcolon heq =>
    cases heq
    exact congrArg (Move.mk · none) (passName_colon hrest hcolon)
  · next hcomment hcolon hbackslash hquote hhyphen hslash hcast hname heq =>
    cases heq
    have hread := Lexeme.read_eq_plain p.position hcomment hcolon hbackslash hquote hhyphen hslash
      hcast hname
    rw [hread]
    rfl

/-! ## Following scanners -/

/-- A place stands where a scanner does. -/
structure Tracks (p : Place) (s : Scanner) : Prop where
  lineStart_le : p.lineStart ≤ p.offset
  position_eq : p.position = s.position

namespace Tracks

variable {s s' : Scanner}

theorem rest_eq (h : p.Tracks s) : p.rest s.source.toList = s.rest := by
  have hoffset : p.offset = s.position.offset := congrArg Position.offset h.position_eq
  rw [rest, hoffset, Scanner.rest]

theorem rest_eq_nil (h : p.Tracks s) (hend : s.atEnd = true) : p.rest s.source.toList = [] := by
  cases hrest : p.rest s.source.toList with
  | nil => rfl
  | cons c t =>
    have hoffset : p.offset = s.position.offset := congrArg Position.offset h.position_eq
    have hlt := offset_lt_bytes hrest
    rw [Text.bytes, String.ofList_toList] at hlt
    rw [Scanner.atEnd, decide_eq_true_eq] at hend
    omega

theorem moved (h : p.Tracks s) {part : List Char} (hplace : s'.position = s.position.after part) :
    (p.after part).Tracks s' where
  lineStart_le := lineStart_le_after h.lineStart_le part
  position_eq := by rw [position_after h.lineStart_le, h.position_eq, hplace]

/-- A step leads a place and a scanner to where they stand together again. Where the place stops
with an error, so does the scanner. -/
theorem step (h : p.Tracks s) : (p.step s.source.toList).place.Tracks s.step.scanner ∧
    ∀ e, (p.step s.source.toList).failure = some e → s.step.failure = some e := by
  have hrest := h.rest_eq
  have hnone (e : Error) {failure : Option Error} (he : none = some e) : failure = some e := by
    cases he
  unfold Scanner.step
  split
  · next hend =>
    rw [Place.step, h.rest_eq_nil hend]
    exact ⟨⟨h.lineStart_le, h.position_eq⟩, fun e he => hnone e he⟩
  · split
    · next hnil =>
      rw [Place.step, hrest, hnil]
      exact ⟨h, fun e he => hnone e he⟩
    · next c tail hcons =>
      rw [hcons] at hrest
      rw [step_eq h.lineStart_le hrest, h.position_eq]
      cases Lexeme.read s.position c tail with
      | error e => exact ⟨h.moved rfl, fun _ he => he⟩
      | ok r => exact ⟨h.moved (Scanner.pass_place s c r).2, fun e he => hnone e he⟩

end Tracks

/-- The place behind so many steps from the start. -/
def behindSteps (source : List Char) : (steps : Nat) → Place
  | 0 => start
  | steps + 1 => ((behindSteps source steps).step source).place

theorem exists_tracks_step {source : String} {s : Scanner} (hsource : s.source = source)
    (h : ∃ steps, (behindSteps source.toList steps).Tracks s) :
    ∃ steps, (behindSteps source.toList steps).Tracks s.step.scanner := by
  subst hsource
  obtain ⟨steps, htracks⟩ := h
  exact ⟨steps + 1, htracks.step.1⟩

end Place

/-- Wherever a scanner comes to, there stands a place that has moved by bytes alone. -/
theorem Scanner.Reaches.tracked {source : String} {s : Scanner} (h : Reaches source s) :
    ∃ steps, (Place.behindSteps source.toList steps).Tracks s := by
  induction h with
  | start => exact ⟨0, Nat.le_refl 0, rfl⟩
  | handOut _ _ ih =>
    obtain ⟨steps, htracks⟩ := ih
    exact ⟨steps, htracks.lineStart_le, htracks.position_eq⟩
  | step before _ _ _ ih =>
    obtain ⟨_, _, hstands⟩ := before.standsBehind
    exact Place.exists_tracks_step hstands.source_eq ih
  | fail before _ _ _ ih =>
    obtain ⟨_, _, hstands⟩ := before.standsBehind
    obtain ⟨steps, htracks⟩ := Place.exists_tracks_step hstands.source_eq ih
    exact ⟨steps, htracks.lineStart_le, htracks.position_eq⟩
  | reset => exact ⟨0, Nat.le_refl 0, rfl⟩

end TwoWaySql
