import TwoWaySql.Proofs.Slices

/-!
# Names of scanned variables

A variable is written in a comment or behind a colon. A comment is refused if it holds no name; a
colon takes the characters that names are made of as far as they go, less the dots at the end, and
asks no further. This file

1. says which texts are names without splitting them (`Name.isValid_iff`): a name starts with a
   letter or an underscore and is made of characters of names, and no dot in it stands in front of
   another one or at the end;
2. shows that every token of a scan, whether the scan fails later or not, is written in the source
   where it says (`Token.scanFrom_written`);
3. concludes which variables of a scan have a name that is none: those behind a colon that hold two
   dots in a row (`Token.isValid_variable_iff`). There is such a variable
   (`Token.not_forall_isValid_variable`).
-/

namespace TwoWaySql

/-! ## Segments without content -/

/-- The characters of the parts of a text are characters of the text, and none is the separator. -/
theorem Text.mem_of_mem_segments {separator c : Char} {s part : List Char}
    (hpart : part ∈ Text.segments separator s) (hc : c ∈ part) : c ∈ s ∧ c ≠ separator := by
  induction s generalizing part with
  | nil =>
    rw [segments, List.mem_singleton] at hpart
    rw [hpart] at hc
    cases hc
  | cons d rest ih =>
    unfold segments at hpart
    split at hpart
    · rcases List.mem_cons.1 hpart with rfl | hpart
      · cases hc
      · exact ⟨List.mem_cons_of_mem d (ih hpart hc).1, (ih hpart hc).2⟩
    · next hd =>
      split at hpart
      · next hnil => exact absurd hnil (segments_ne_nil separator rest)
      · next first parts hsegments =>
        rw [hsegments] at ih
        rcases List.mem_cons.1 hpart with rfl | hpart
        · rcases List.mem_cons.1 hc with rfl | hc
          · exact ⟨List.mem_cons_self, hd⟩
          · have hfirst := ih List.mem_cons_self hc
            exact ⟨List.mem_cons_of_mem d hfirst.1, hfirst.2⟩
        · have hlater := ih (List.mem_cons_of_mem first hpart) hc
          exact ⟨List.mem_cons_of_mem d hlater.1, hlater.2⟩

/-- A part without content lies between two separators that meet. The first part is such a part if
it lies behind a separator, and the last one counts as if a separator followed it. -/
theorem Text.nil_mem_segments_iff (separator : Char) (s : List Char) :
    ([] ∈ segments separator s ↔ [separator, separator] <:+: separator :: (s ++ [separator])) ∧
      ([] ∈ (segments separator s).tail ↔ [separator, separator] <:+: s ++ [separator]) := by
  induction s with
  | nil => simp [segments, List.infix_cons_iff]
  | cons c rest ih =>
    by_cases hc : c = separator
    · subst hc
      have hfirst : segments c (c :: rest) = [] :: segments c rest := by rw [segments, if_pos rfl]
      rw [hfirst, List.tail_cons, List.cons_append]
      refine ⟨iff_of_true List.mem_cons_self ?_, ih.1⟩
      exact ⟨[], rest ++ [c], rfl⟩
    · obtain ⟨first, parts, hparts⟩ := List.exists_cons_of_ne_nil (segments_ne_nil separator rest)
      have hfirst : segments separator (c :: rest) = (c :: first) :: parts := by
        rw [segments, if_neg hc, hparts]
      have hnone (more : List Char) : ¬ [separator, separator] <+: c :: more := fun hstarts =>
        hc (List.cons_prefix_cons.1 hstarts).1.symm
      have hbehind (more : List Char) :
          [separator, separator] <:+: separator :: c :: more ↔
            [separator, separator] <:+: c :: more := by
        rw [List.infix_cons_iff, List.cons_prefix_cons, List.cons_prefix_cons]
        simp [Ne.symm hc]
      have htail : [] ∈ parts ↔ [separator, separator] <:+: c :: (rest ++ [separator]) := by
        have hrest := ih.2
        rw [hparts, List.tail_cons] at hrest
        rw [hrest, List.infix_cons_iff, or_iff_right (hnone _)]
      rw [hfirst, List.tail_cons, List.cons_append, hbehind, ← htail]
      simp

namespace Name

/-- A name starts with a letter or an underscore and is made of characters of names, and no dot in
it stands in front of another one or at the end. -/
theorem isValid_iff {name : List Char} :
    isValid name = true ↔ name.head?.any isStart = true ∧ name.all isPart = true ∧
      ¬ ['.', '.'] <:+: name ++ ['.'] := by
  constructor
  · intro h
    obtain ⟨c, rest, hname, hstart⟩ := exists_cons_of_isValid h
    refine ⟨by rw [hname]; exact hstart, List.all_eq_true.2 (isPart_of_isValid h), ?_⟩
    rw [← (Text.nil_mem_segments_iff '.' name).2]
    intro hnil
    unfold isValid at h
    split at h
    · cases h
    · next head segments hsegments =>
      rw [hsegments, List.tail_cons] at hnil
      have hsegment := List.all_eq_true.1 (Bool.and_eq_true_iff.1 h).2 [] hnil
      cases hsegment
  · rintro ⟨hstart, hparts, hdots⟩
    rw [← (Text.nil_mem_segments_iff '.' name).2] at hdots
    have hinner {segment : List Char} (hsegment : segment ∈ Text.segments '.' name) :
        segment.all isInner = true := by
      rw [List.all_eq_true]
      intro c hc
      obtain ⟨hmem, hne⟩ := Text.mem_of_mem_segments hsegment hc
      have hpart := List.all_eq_true.1 hparts c hmem
      rwa [isPart, beq_eq_false_iff_ne.2 hne, Bool.or_false] at hpart
    cases name with
    | nil => cases hstart
    | cons c rest =>
      have hc : c ≠ '.' := by
        rintro rfl
        cases hstart
      obtain ⟨first, segments, hsegments⟩ :=
        List.exists_cons_of_ne_nil (Text.segments_ne_nil '.' rest)
      have hname : Text.segments '.' (c :: rest) = (c :: first) :: segments := by
        rw [Text.segments, if_neg hc, hsegments]
      rw [hname, List.tail_cons] at hdots
      rw [hname] at hinner
      unfold isValid
      rw [hname]
      show (isStart c && (c :: first).all isInner && segments.all isSegment) = true
      rw [show isStart c = true from hstart, hinner List.mem_cons_self, Bool.true_and,
        Bool.true_and, List.all_eq_true]
      intro segment hsegment
      have hne : segment ≠ [] := by
        rintro rfl
        exact hdots hsegment
      rw [isSegment, hinner (List.mem_cons_of_mem _ hsegment), Bool.and_true]
      simpa using hne

end Name

/-! ## Names behind a colon -/

namespace Lexeme

theorem all_isPart_nameRun (s : List Char) : (nameRun s).all Name.isPart = true := by
  rw [List.all_eq_true]
  intro c hc
  exact List.mem_takeWhile_imp ((nameRun_prefix_takeWhile s).subset hc)

theorem getLast?_nameRun (s : List Char) : (nameRun s).getLast? ≠ some '.' := by
  rw [nameRun, List.getLast?_reverse]
  intro hlast
  have hnot := List.head?_dropWhile_not (· == '.') (s.takeWhile Name.isPart).reverse
  rw [hlast] at hnot
  cases hnot

/-- A run of characters of names that starts like a name is one unless two dots meet in it. -/
theorem isValid_nameRun_iff {s : List Char} (h : (nameRun s).head?.any Name.isStart = true) :
    Name.isValid (nameRun s) = true ↔ ¬ ['.', '.'] <:+: nameRun s := by
  have hlast : ¬ ['.', '.'] <:+ nameRun s ++ ['.'] := by
    rintro ⟨before, hbefore⟩
    have happend : (before ++ ['.']) ++ ['.'] = nameRun s ++ ['.'] := by
      rw [← hbefore, List.append_assoc]
      rfl
    have hrun := List.append_cancel_right happend
    exact getLast?_nameRun s (hrun ▸ List.getLast?_concat)
  rw [Name.isValid_iff, List.infix_concat_iff, or_iff_right hlast]
  exact ⟨fun hvalid => hvalid.2.2, fun hdots => ⟨h, all_isPart_nameRun s, hdots⟩⟩

end Lexeme

/-! ## Names in comments -/

namespace Directive

/-- The name of a directive that is a variable. -/
def name? : Directive → Option String
  | bind name => some name
  | embedded name _ => some name
  | _ => none

theorem isValid_of_readEmbedded {quoted : Bool} {text : List Char} {d : Directive} {name : String}
    (h : readEmbedded quoted text = .ok d) (hname : d.name? = some name) :
    Name.isValid name.toList = true := by
  simp only [readEmbedded] at h
  split at h
  · next hvalid =>
    cases h
    cases hname
    rwa [String.toList_ofList]
  · cases h

theorem isValid_of_readWord {word rest : List Char} {d : Directive} {name : String}
    (h : readWord word rest = .ok d) (hname : d.name? = some name) :
    Name.isValid name.toList = true := by
  have hcondition {word : String} {make : String → Directive}
      (h : withCondition word rest make = .ok d) : ∃ condition, make condition = d := by
    unfold withCondition at h
    split at h <;> cases h
    exact ⟨_, rfl⟩
  have halone {word : String} {other : Directive} (h : alone word rest other = .ok d) :
      other = d := by
    unfold alone at h
    split at h <;> cases h
    rfl
  unfold readWord at h
  split at h
  -- a keyword makes no variable
  · obtain ⟨condition, rfl⟩ := hcondition h
    cases hname
  · obtain ⟨condition, rfl⟩ := hcondition h
    cases hname
  · obtain ⟨condition, rfl⟩ := hcondition h
    cases hname
  · cases halone h
    cases hname
  · cases halone h
    cases hname
  · cases halone h
    cases hname
  · split at h
    · split at h
      · next hvalid =>
        cases h
        cases hname
        rwa [String.toList_ofList]
      · cases h
    · cases h

/-- A comment that is a variable holds a name. -/
theorem isValid_of_read {content : List Char} {d : Directive} {name : String}
    (h : read content = .ok d) (hname : d.name? = some name) :
    Name.isValid name.toList = true := by
  unfold read at h
  split at h
  · exact isValid_of_readEmbedded h hname
  · exact isValid_of_readEmbedded h hname
  · exact isValid_of_readWord h hname

end Directive

/-! ## Tokens of a scan -/

/-- The name of a token that is a variable. -/
def TokenKind.name? : TokenKind → Option String
  | bind name _ => some name
  | embedded name _ => some name
  | _ => none

theorem TokenKind.name?_of_mem_marks {kind : TokenKind} {d : Directive} (h : kind ∈ d.marks) :
    kind.name? = none := by
  cases d with
  | bind | embedded => cases h
  | close => rcases List.mem_pair.1 h with rfl | rfl <;> rfl
  | _ =>
    rw [List.mem_singleton.1 h]
    rfl

/-- A variable is written in a comment, which holds a name, or behind a colon. -/
theorem TokenKind.Written.variable {kind : TokenKind} {slice rest : List Char} {name : String}
    (h : kind.Written slice rest) (hname : kind.name? = some name) :
    Name.isValid name.toList = true ∨
      kind = .bind name false ∧ slice = ':' :: name.toList ∧
        name.toList.head?.any Name.isStart = true ∧
        Lexeme.nameRun (name.toList ++ rest) = name.toList := by
  cases h with
  | text decodes => cases hname
  | sigil starts run =>
    cases hname
    rw [String.toList_ofList]
    exact .inr ⟨rfl, rfl, starts, run⟩
  | bind comment skipped =>
    cases hname
    exact .inl (Directive.isValid_of_read comment.read rfl)
  | embedded comment skipped =>
    cases hname
    exact .inl (Directive.isValid_of_read comment.read rfl)
  | mark comment mark =>
    rw [TokenKind.name?_of_mem_marks mark] at hname
    cases hname

namespace Token

/-- A token of a scan that is no text is written in the source where it says. The scan may fail
behind it. -/
theorem scanFrom_written {nesting : Nesting} {pending : Pending} {position : Position}
    {front s : List Char} (hposition : position = Position.start.after front) {token : Token}
    (htoken : token ∈ (scanFrom nesting pending position s).tokens)
    (hkind : token.kind.isText = false) :
    ∃ before slice rest, front ++ s = before ++ (slice ++ rest) ∧
      token.position = Position.start.after before ∧ token.kind.Written slice rest := by
  have hpending {pending : Pending} : token ∉ pending.tokens := by
    intro hmem
    unfold Pending.tokens at hmem
    split at hmem
    · cases hmem
    · rw [List.mem_singleton.1 hmem] at hkind
      cases hkind
  fun_induction scanFrom nesting pending position s generalizing front with
  | case1 pending position => exact absurd htoken hpending
  | case2 | case3 | case5 => cases htoken
  | case4 nesting pending position c s decoded taken rest hread ih =>
    subst hposition
    obtain ⟨before, slice, behind, happend, hfound⟩ :=
      ih (Position.after_append ..).symm htoken
    refine ⟨before, slice, behind, ?_, hfound⟩
    rw [← happend, List.append_assoc, List.cons_append, Lexeme.append_of_read hread]
  | case6 nesting pending position c s lexeme taken rest hnot hread kind next haccept ih =>
    subst hposition
    rw [Scan.prepend, List.append_assoc, List.mem_append, List.singleton_append,
      List.mem_cons] at htoken
    rcases htoken with htoken | rfl | htoken
    · exact absurd htoken hpending
    · refine ⟨front, c :: taken, rest, ?_, rfl, Lexeme.written_of_read hread hnot haccept⟩
      rw [List.cons_append, Lexeme.append_of_read hread]
    · obtain ⟨before, slice, behind, happend, hfound⟩ :=
        ih (Position.after_append ..).symm htoken
      refine ⟨before, slice, behind, ?_, hfound⟩
      rw [← happend, List.append_assoc, List.cons_append, Lexeme.append_of_read hread]

/-- The name of a variable in a scan starts with a letter or an underscore, is made of characters of
names and ends in no dot. It satisfies the grammar of names unless two dots meet in it; where they
do, the variable is written behind a colon. -/
theorem isValid_variable_iff {source : String} {token : Token} {name : String}
    (htoken : token ∈ (scan source).tokens) (hname : token.kind.name? = some name) :
    (Name.isValid name.toList = true ↔ ¬ ['.', '.'] <:+: name.toList) ∧
      (Name.isValid name.toList = false → token.kind = .bind name false ∧
        ∃ front rest, source.toList = front ++ ':' :: (name.toList ++ rest) ∧
          token.position = Position.start.after front) := by
  have hkind : token.kind.isText = false := by
    cases hkind : token.kind with
    | text content =>
      rw [hkind] at hname
      cases hname
    | _ => rfl
  have hstart : Position.start = Position.start.after [] := rfl
  obtain ⟨front, slice, rest, happend, hposition, hwritten⟩ :=
    scanFrom_written hstart htoken hkind
  rcases hwritten.variable hname with hvalid | ⟨hbind, hslice, hstarts, hrun⟩
  · have hdots := (Name.isValid_iff.1 hvalid).2.2
    refine ⟨iff_of_true hvalid fun hinfix => hdots (List.infix_append_of_infix_left hinfix), ?_⟩
    intro hinvalid
    rw [hvalid] at hinvalid
    cases hinvalid
  · rw [← hrun] at hstarts
    have hiff := Lexeme.isValid_nameRun_iff hstarts
    rw [hrun] at hiff
    refine ⟨hiff, fun _ => ⟨hbind, front, rest, ?_, hposition⟩⟩
    rw [hslice] at happend
    exact happend

/-- A variable behind a colon, in a scan that fails behind it. -/
theorem isValid_variable_iff_failing :
    let source := "= /*x.y*/1, :a..b./*IF*/"
    let token : Token := ⟨.bind "a..b" false, ⟨12, 1, 13⟩⟩
    (scan source).failure = some (.parse ⟨18, 1, 19⟩ (.expected "an expression after IF")) ∧
      token ∈ (scan source).tokens ∧ token.kind.name? = some "a..b" ∧
      Name.isValid "a..b".toList = false ∧
      ∃ front rest, source.toList = front ++ ':' :: ("a..b".toList ++ rest) ∧
        token.position = Position.start.after front := by
  intro source token
  have hscan : scan source = ⟨[⟨.text "= ", .start⟩, ⟨.bind "x.y" false, ⟨2, 1, 3⟩⟩,
      ⟨.text ", ", ⟨10, 1, 11⟩⟩, token],
    some (.parse ⟨18, 1, 19⟩ (.expected "an expression after IF"))⟩ := by decide +kernel
  have htoken : token ∈ (scan source).tokens := by
    rw [hscan]
    simp
  have hinvalid : Name.isValid "a..b".toList = false := by decide +kernel
  refine ⟨by rw [hscan], htoken, rfl, hinvalid, ?_⟩
  exact ((isValid_variable_iff htoken rfl).2 hinvalid).2

/-- Not every variable of a scan has a name that satisfies the grammar of names. -/
theorem not_forall_isValid_variable :
    ¬ ∀ source : String, ∀ token ∈ (scan source).tokens, ∀ name ∈ token.kind.name?,
      Name.isValid name.toList = true := by
  intro h
  have hscan : scan ":a..b" = ⟨[⟨.bind "a..b" false, .start⟩], none⟩ := by decide +kernel
  have hvalid := h ":a..b" ⟨.bind "a..b" false, .start⟩ (by rw [hscan]; exact List.mem_cons_self)
    "a..b" rfl
  have hinvalid : Name.isValid "a..b".toList = false := by decide +kernel
  rw [hinvalid] at hvalid
  cases hvalid

end Token

end TwoWaySql
