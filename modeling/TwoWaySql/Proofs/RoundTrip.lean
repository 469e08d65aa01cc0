import TwoWaySql.Proofs.Printing

/-!
# The round trip

A normal tree that is printed and read again is the same tree, up to the places of its branches
(`Tree.parse_print`). The steps are

1. the tokens of a normal tree are normal, and no text among them meets another one
   (`Tree.isNormalAll_marks`);
2. an escaped text is taken up whole by the text that the scan keeps pending, if nothing or a
   comment follows it (`Token.absorbs_escape`);
3. a printed row of normal tokens is therefore scanned back, from inside any open directives and
   behind any pending text that no other text meets (`Token.scanFrom_print`);
4. the tree is built from its tokens as in the file on nesting.
-/

namespace TwoWaySql

open TwoWaySql.Tree (maxNesting)

/-! ## Rows of tokens -/

namespace TokenKind

def startsText (kinds : List TokenKind) : Bool := kinds.head?.any isText

/-- Whether a row can be printed: no text meets another one. -/
def isNormalAll : List TokenKind → Bool
  | [] => true
  | kind :: rest => kind.isNormal && !(kind.isText && startsText rest) && isNormalAll rest

theorem isNormalAll_cons {kind : TokenKind} {rest : List TokenKind} :
    isNormalAll (kind :: rest) = true ↔
      kind.isNormal = true ∧ (kind.isText = true → startsText rest = false) ∧
        isNormalAll rest = true := by
  rw [isNormalAll, Bool.and_eq_true, Bool.and_eq_true]
  cases kind.isText <;> simp [and_assoc]

end TokenKind

theorem Node.startsText_marks (node : Node) (more : List TokenKind) :
    TokenKind.startsText (node.marks.map Mark.kind ++ more) = node.isText := by
  cases node <;> rfl

theorem Chain.startsText_marks (chain : Chain) (more : List TokenKind) :
    TokenKind.startsText (chain.marks.map Mark.kind ++ more) = false := by
  cases chain <;> rfl

open TokenKind (isNormalAll_cons)

mutual

/-- The tokens of a normal node, in front of a row that no text of the node meets. -/
theorem Node.isNormal_marks : ∀ (node : Node) (more : List TokenKind), node.isNormal = true →
    (node.isText = true → TokenKind.startsText more = false) →
    TokenKind.isNormalAll more = true →
    TokenKind.isNormalAll (node.marks.map Mark.kind ++ more) = true
  | .text content, more, h, hmeet, hmore => isNormalAll_cons.2 ⟨h, fun _ => hmeet rfl, hmore⟩
  | .bind name paren, more, h, _, hmore => isNormalAll_cons.2 ⟨h, nofun, hmore⟩
  | .embedded name quoted, more, h, _, hmore => isNormalAll_cons.2 ⟨h, nofun, hmore⟩
  | .chain condition position body rest, more, h, _, hmore => by
    rw [Node.isNormal, Bool.and_eq_true, Bool.and_eq_true] at h
    obtain ⟨⟨hcondition, hbody⟩, hrest⟩ := h
    have htail := Chain.isNormal_marks rest more hrest hmore
    rw [Node.marks, Mark.kinds_enclose]
    refine isNormalAll_cons.2 ⟨hcondition, nofun, ?_⟩
    exact Node.isNormalAll_marks body _ hbody (rest.startsText_marks more) htail
  | .block body, more, h, _, hmore => by
    have htail : TokenKind.isNormalAll (.endBlock :: more) = true :=
      isNormalAll_cons.2 ⟨rfl, nofun, hmore⟩
    rw [Node.marks, Mark.kinds_enclose]
    refine isNormalAll_cons.2 ⟨rfl, nofun, ?_⟩
    exact Node.isNormalAll_marks body _ h rfl htail

theorem Chain.isNormal_marks : ∀ (chain : Chain) (more : List TokenKind), chain.isNormal = true →
    TokenKind.isNormalAll more = true →
    TokenKind.isNormalAll (chain.marks.map Mark.kind ++ more) = true
  | .done, more, _, hmore => isNormalAll_cons.2 ⟨rfl, nofun, hmore⟩
  | .elseIf condition position body rest, more, h, hmore => by
    rw [Chain.isNormal, Bool.and_eq_true, Bool.and_eq_true] at h
    obtain ⟨⟨hcondition, hbody⟩, hrest⟩ := h
    have htail := Chain.isNormal_marks rest more hrest hmore
    rw [Chain.marks, Mark.kinds_enclose]
    refine isNormalAll_cons.2 ⟨hcondition, nofun, ?_⟩
    exact Node.isNormalAll_marks body _ hbody (rest.startsText_marks more) htail
  | .otherwise position body, more, h, hmore => by
    have htail : TokenKind.isNormalAll (.endIf :: more) = true :=
      isNormalAll_cons.2 ⟨rfl, nofun, hmore⟩
    rw [Chain.marks, Mark.kinds_enclose]
    refine isNormalAll_cons.2 ⟨rfl, nofun, ?_⟩
    exact Node.isNormalAll_marks body _ h rfl htail

/-- The tokens of a normal sequence, in front of a row that starts with no text. -/
theorem Node.isNormalAll_marks : ∀ (nodes : List Node) (more : List TokenKind),
    Node.isNormalAll nodes = true → TokenKind.startsText more = false →
    TokenKind.isNormalAll more = true →
    TokenKind.isNormalAll ((Node.marksAll nodes).map Mark.kind ++ more) = true
  | [], _, _, _, hmore => hmore
  | node :: rest, more, h, hstart, hmore => by
    rw [Node.isNormalAll, Bool.and_eq_true, Bool.and_eq_true, Bool.not_eq_true'] at h
    obtain ⟨⟨hnode, hmeet⟩, hrest⟩ := h
    have htail := Node.isNormalAll_marks rest more hrest hstart hmore
    rw [Node.marksAll, List.map_append, List.append_assoc]
    apply Node.isNormal_marks node _ hnode _ htail
    intro htext
    -- a text is followed by the next node of the sequence, or by what follows the sequence
    cases rest with
    | nil => exact hstart
    | cons next others =>
      rw [htext] at hmeet
      rw [Node.marksAll, List.map_append, List.append_assoc, Node.startsText_marks]
      exact hmeet

end

theorem Tree.isNormalAll_marks {t : Tree} (h : t.isNormal = true) :
    TokenKind.isNormalAll (t.marks.map Mark.kind) = true := by
  rw [Tree.isNormal, Bool.and_eq_true] at h
  have hrow := Node.isNormalAll_marks t.nodes [] h.1 rfl rfl
  rwa [List.append_nil] at hrow

/-! ## Lexemes of an escaped text -/

namespace Text

/-- A text that is empty or starts a comment: what a text is followed by. -/
def endsText (s : List Char) : Prop := ∀ c ∈ s.head?, c = '/'

/-- What an escaped text starts with, in front of what ends it. -/
theorem head_escape {behind : List Char} (hbehind : endsText behind) (s : List Char) :
    ∀ c ∈ (escape s ++ behind).head?, c = '\\' ∨ c = '/' ∨ c ∈ s.head? := by
  fun_cases escape s with
  | case1 => exact fun c hc => .inr (.inl (hbehind c hc))
  | case2 | case3 | case4 => exact fun c hc => .inl (Option.mem_some_iff.1 hc).symm
  | case5 => exact fun c hc => .inr (.inr hc)

end Text

namespace Lexeme

theorem read_slash {s : List Char} (h : ∀ c ∈ s.head?, c ≠ '*') (position : Position) :
    read position '/' s = .ok (plain '/' s) := by
  show readSlash position s = _
  unfold readSlash
  split
  · next rest => exact absurd rfl (h '*' rfl)
  · rfl

theorem read_hyphen {s : List Char} (h : ∀ c ∈ s.head?, c ≠ '-') (position : Position) :
    read position '-' s = .ok (plain '-' s) := by
  show Except.ok (readHyphen s) = _
  unfold readHyphen
  split
  · next rest => exact absurd rfl (h '-' rfl)
  · rfl

theorem read_plain {c : Char} (h : c ∉ ['\\', '\'', '-', '/', ':']) (position : Position)
    (s : List Char) : read position c s = .ok (plain c s) := by
  simp only [List.mem_cons, List.not_mem_nil, or_false, not_or] at h
  obtain ⟨hescape, hquote, hhyphen, hslash, hcolon⟩ := h
  rw [read, if_neg hescape, if_neg hquote, if_neg hhyphen, if_neg hslash, if_neg hcolon]

/-- A character that is printed as it is, in front of the rest of its text and what ends it. -/
theorem read_escape {c : Char} {rest behind : List Char} (hbehind : Text.endsText behind)
    (hescape : c ≠ '\\') (hcolon : c ≠ ':') (hcomment : ∀ after, c = '/' → rest ≠ '*' :: after)
    (hquote : c ≠ '\'') (hhyphen : Text.occursIn ['-', '-'] (c :: rest) = false)
    (position : Position) :
    read position c (Text.escape rest ++ behind) = .ok (plain c (Text.escape rest ++ behind)) := by
  have hhead := Text.head_escape hbehind rest
  by_cases hc : c = '/'
  · subst hc
    apply read_slash
    -- an asterisk there would be one of the text itself, and that is printed escaped
    rintro d hd rfl
    rcases hhead _ hd with h | h | h
    · cases h
    · cases h
    · obtain ⟨after, hafter⟩ := List.head?_eq_some_iff.1 h
      exact hcomment after rfl hafter
  · by_cases hc' : c = '-'
    · subst hc'
      apply read_hyphen
      rintro d hd rfl
      rcases hhead _ hd with h | h | h
      · cases h
      · cases h
      · obtain ⟨after, rfl⟩ := List.head?_eq_some_iff.1 h
        simp [Text.occursIn] at hhyphen
    · apply read_plain
      simp [hescape, hcolon, hquote, hc, hc']

end Lexeme

/-! ## Scanning -/

namespace Token

/-- A scan that starts at `source` takes up `text` as pending text and goes on at `behind`. -/
def Absorbs (source text behind : List Char) : Prop :=
  ∀ (nesting : Nesting) (pending : Pending) (position : Position),
    ∃ (pending' : Pending) (position' : Position),
      scanFrom nesting pending position source = scanFrom nesting pending' position' behind ∧
        pending'.text = pending.text ++ String.ofList text

theorem Absorbs.nothing (s : List Char) : Absorbs s [] s := by
  intro nesting pending position
  refine ⟨pending, position, rfl, ?_⟩
  rw [String.ofList_nil, String.append_empty]

theorem Absorbs.lexeme {c : Char} {s decoded taken rest text behind : List Char}
    (h : ∀ position, Lexeme.read position c s = .ok ⟨.text decoded, taken, rest⟩)
    (hrest : Absorbs rest text behind) : Absorbs (c :: s) (decoded ++ text) behind := by
  intro nesting pending position
  obtain ⟨pending', position', hscan, htext⟩ :=
    hrest nesting (pending.push position decoded) (position.after (c :: taken))
  refine ⟨pending', position', ?_, ?_⟩
  · rw [scanFrom_text (h position), hscan]
  · rw [htext, Pending.push_text, String.append_assoc, String.ofList_append]

/-- A scan takes up an escaped text whole, in front of what ends a text. -/
theorem absorbs_escape {s behind : List Char} (hbehind : Text.endsText behind)
    (hquote : '\'' ∉ s) (hhyphen : Text.occursIn ['-', '-'] s = false) :
    Absorbs (Text.escape s ++ behind) s behind := by
  -- each clause of `escape` prints one lexeme of text
  fun_induction Text.escape s with
  | case1 => exact .nothing behind
  | case2 rest ih =>
    have hread (position : Position) :
        Lexeme.read position '\\' ('\\' :: (Text.escape rest ++ behind)) =
          .ok ⟨.text ['\\'], ['\\'], Text.escape rest ++ behind⟩ := rfl
    rw [List.mem_cons, not_or] at hquote
    rw [Text.occursIn, Bool.or_eq_false_iff] at hhyphen
    exact .lexeme hread (ih hquote.2 hhyphen.2)
  | case3 rest ih =>
    have hread (position : Position) :
        Lexeme.read position '\\' (':' :: (Text.escape rest ++ behind)) =
          .ok ⟨.text [':'], [':'], Text.escape rest ++ behind⟩ := rfl
    rw [List.mem_cons, not_or] at hquote
    rw [Text.occursIn, Bool.or_eq_false_iff] at hhyphen
    exact .lexeme hread (ih hquote.2 hhyphen.2)
  | case4 rest ih =>
    have hread (position : Position) :
        Lexeme.read position '\\' ('/' :: '*' :: (Text.escape rest ++ behind)) =
          .ok ⟨.text ['/', '*'], ['/', '*'], Text.escape rest ++ behind⟩ := rfl
    rw [List.mem_cons, not_or, List.mem_cons, not_or] at hquote
    rw [Text.occursIn, Bool.or_eq_false_iff, Text.occursIn, Bool.or_eq_false_iff] at hhyphen
    exact .lexeme hread (ih hquote.2.2 hhyphen.2.2)
  | case5 c rest hescape hcolon hcomment ih =>
    have hread := Lexeme.read_escape hbehind hescape hcolon hcomment
      (fun hc => hquote (hc ▸ List.mem_cons_self)) hhyphen
    rw [List.mem_cons, not_or] at hquote
    rw [Text.occursIn, Bool.or_eq_false_iff] at hhyphen
    exact .lexeme hread (ih hquote.2 hhyphen.2)

theorem endsText_print {kinds : List TokenKind} (hstart : TokenKind.startsText kinds = false)
    (hnormal : TokenKind.isNormalAll kinds = true) :
    Text.endsText (kinds.flatMap TokenKind.print) := by
  cases kinds with
  | nil => nofun
  | cons kind rest =>
    obtain ⟨hkind, -, -⟩ := isNormalAll_cons.1 hnormal
    obtain ⟨taken, hprint, -⟩ := Lexeme.read_print hstart hkind .start []
    rw [List.flatMap_cons, hprint]
    exact fun c hc => (Option.mem_some_iff.1 hc).symm

theorem lexeme_ne_text {kind : TokenKind} (h : kind.isText = false) (decoded : List Char) :
    kind.lexeme ≠ .text decoded := by
  cases kind with
  | text content => cases h
  | _ => nofun

/-- A printed row of normal tokens is scanned back, inside open directives that it closes and behind
pending text that it does not go on with. -/
theorem scanFrom_print {kinds : List TokenKind} (hnormal : TokenKind.isNormalAll kinds = true)
    {nesting : Nesting} (hnest : TokenKind.nestAll kinds (nesting.map Prod.fst) = some [])
    {pending : Pending} (hmeet : pending.text = "" ∨ TokenKind.startsText kinds = false)
    (position : Position) :
    ∃ tokens : List Token,
      scanFrom nesting pending position (kinds.flatMap TokenKind.print) = ⟨tokens, none⟩ ∧
        tokens.map Token.kind = pending.tokens.map Token.kind ++ kinds := by
  -- the invariant is that the pending text and the row ahead never hold two texts in a row
  induction kinds generalizing nesting pending position with
  | nil =>
    obtain rfl : nesting = [] := List.map_eq_nil_iff.1 (Option.some.inj hnest)
    refine ⟨pending.tokens, ?_, (List.append_nil _).symm⟩
    rw [List.flatMap_nil, scanFrom]
  | cons kind rest ih =>
    obtain ⟨hkind, hnext, hrest⟩ := isNormalAll_cons.1 hnormal
    obtain ⟨inner, hopen, hclose⟩ := Option.bind_eq_some_iff.1 hnest
    rw [List.flatMap_cons]
    cases htext : kind.isText with
    | true =>
      -- the text becomes pending, and the next token or the end of the source completes it
      obtain ⟨content, rfl⟩ : ∃ content, kind = .text content := by
        cases kind with
        | text content => exact ⟨content, rfl⟩
        | _ => cases htext
      obtain rfl : nesting.map Prod.fst = inner := Option.some.inj hopen
      have hstart := hnext rfl
      -- nothing is pending in front of a text
      have hempty : pending.text = "" := hmeet.resolve_right (by simp [TokenKind.startsText, htext])
      obtain ⟨hcontent, hquote, hhyphen⟩ := TokenKind.text_of_isNormal hkind
      obtain ⟨pending', position', hscan, htaken⟩ :=
        absorbs_escape (endsText_print hstart hrest) hquote hhyphen nesting pending position
      rw [hempty, String.empty_append, String.ofList_toList] at htaken
      have hbehind : pending'.text = "" ∨ TokenKind.startsText rest = false := .inr hstart
      obtain ⟨tokens, htokens, hkinds⟩ := ih hrest hclose hbehind position'
      refine ⟨tokens, hscan.trans htokens, ?_⟩
      rw [hkinds, Pending.tokens_of_empty hempty, Pending.kinds_of_ne (htaken ▸ hcontent), htaken]
      rfl
    | false =>
      obtain ⟨taken, hprint, hread⟩ :=
        Lexeme.read_print htext hkind position (rest.flatMap TokenKind.print)
      obtain ⟨next, haccept, rfl⟩ := accept_of_nest hopen position
      have hbehind : Pending.none.text = "" ∨ TokenKind.startsText rest = false := .inl rfl
      obtain ⟨tokens, htokens, hkinds⟩ := ih hrest hclose hbehind (position.after ('/' :: taken))
      refine ⟨pending.tokens ++ [⟨kind, position⟩] ++ tokens, ?_, ?_⟩
      · rw [hprint, List.cons_append, scanFrom_accept hread (lexeme_ne_text htext) haccept, htokens]
        rfl
      · rw [List.map_append, List.map_append, hkinds, List.append_assoc]
        rfl

end Token

/-! ## Reading a printed tree -/

/-- A normal tree that is printed and read gives a template with that tree. -/
theorem Tree.parse_print {t : Tree} (h : t.isNormal = true) (name : Option String) :
    ∃ u : Template, Template.parse name t.print = .ok u ∧ u.tree.erase = t.erase := by
  have hdepth : t.depth ≤ maxNesting := by
    rw [Tree.isNormal, Bool.and_eq_true] at h
    exact of_decide_eq_true h.2
  have hrow := Tree.isNormalAll_marks h
  have hnest : TokenKind.nestAll (t.marks.map Mark.kind) (([] : Token.Nesting).map Prod.fst) =
      some [] := t.nestAll_marks
  have hfirst : Token.Pending.none.text = "" ∨
      TokenKind.startsText (t.marks.map Mark.kind) = false := .inl rfl
  obtain ⟨tokens, hscan, hkinds⟩ := Token.scanFrom_print hrow hnest hfirst .start
  obtain ⟨built, hbuilt, herase⟩ := Tree.ofItems_of_marks hkinds hdepth
  have hsource : Tree.ofSource t.print = .ok built := by
    rw [Tree.ofSource, Token.scan, Tree.print, String.toList_ofList, hscan]
    simpa [Scan.items] using hbuilt
  exact ⟨⟨name, t.print, built, hsource⟩, Template.parse_of_ofSource hsource name, herase⟩

/-- A tree whose texts and conditions end in what comments start or end with. -/
def junctionsTree : Tree where
  nodes :=
    [.text "SELECT a/",
     .chain "id % 2 *" .start [.text ":\\/*/", .bind "user.id" true]
       (.elseIf "x != 'n'" .start [.text "-", .embedded "order_by" true, .text "é\\"]
         (.otherwise .start [])),
     .block [.chain "c" .start [.text "*/", .bind "END_" false] .done],
     .text "(1)"]

theorem Tree.parse_print_junctions :
    junctionsTree.isNormal = true ∧
      ∃ u : Template, Template.parse none junctionsTree.print = .ok u ∧
        u.tree.erase = junctionsTree.erase := by
  have hnormal : junctionsTree.isNormal = true := by decide +kernel
  exact ⟨hnormal, junctionsTree.parse_print hnormal none⟩

end TwoWaySql
