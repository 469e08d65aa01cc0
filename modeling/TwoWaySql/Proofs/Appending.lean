import TwoWaySql.Proofs.Extension
import TwoWaySql.Proofs.Rendering
import TwoWaySql.Proofs.Validation

/-!
# Sources one behind the other

Where one source ends with a line, what follows does not change what it says, and it does not change
what the other one says. So a source that is cut behind a line says what its two parts say, one
behind the other (`Renderer.render_append`). This file

1. shows that the tokens of two such sources in a row are theirs in a row, where two texts that meet
   become one (`Token.scanFrom_append`, `Token.scanFrom_behind`);
2. shows the same of their trees (`Joins`, `Tree.ofSource_append`), up to places;
3. shows that what a tree says depends neither on places nor on numbers (`Node.plain_meaning`), and
   that sequences that are joined say what they say one behind the other (`Joins.content`).
-/

namespace TwoWaySql

open Token (Nesting Opened Pending scanFrom scanFrom_text scanFrom_accept)

/-! ## Scanning the first source -/

/-- The text is empty or ends with a line. -/
def Text.EndsLine (s : List Char) : Prop := ∀ c ∈ s.getLast?, c = '\n'

theorem Text.EndsLine.right {before s : List Char} (h : EndsLine (before ++ s)) : EndsLine s := by
  intro c hc
  apply h c
  rw [List.getLast?_append, Option.mem_def.1 hc]
  rfl

theorem Text.EndsLine.breaks {c : Char} {s : List Char} (h : EndsLine (c :: s))
    (behind : List Char) : Breaks (c :: s) behind := by
  obtain ⟨last, hlast⟩ := Option.isSome_iff_exists.1
    (List.getLast?_isSome.2 (List.cons_ne_nil c s))
  exact .inr (h last hlast ▸ hlast)

namespace Token

open Text (EndsLine)

theorem endsLine_rest {position : Position} {c : Char} {s : List Char} {r : Lexeme.Reading}
    (h : Lexeme.read position c s = .ok r) (hs : EndsLine (c :: s)) : EndsLine r.rest := by
  rw [← Lexeme.append_of_read h, ← List.cons_append] at hs
  exact hs.right

/-- A source that ends with a line is scanned in the same way whatever follows it. Its last text is
still pending then, and nothing is open. -/
theorem scanFrom_append {nesting : Nesting} {pending : Pending} {position : Position}
    {s : List Char} (h : (scanFrom nesting pending position s).failure = none) (hs : EndsLine s)
    (behind : List Char) :
    ∃ (front : List Token) (last : Pending) (place : Position),
      (scanFrom nesting pending position s).tokens = front ++ last.tokens ∧
      scanFrom nesting pending position (s ++ behind) =
        (scanFrom [] last place behind).prepend front := by
  fun_induction scanFrom nesting pending position s with
  | case1 pending position => exact ⟨[], pending, position, rfl, rfl⟩
  | case2 pending position opened start outer => cases h
  | case3 nesting pending position c s e hread => cases h
  | case4 nesting pending position c s decoded taken rest hread ih =>
    obtain ⟨front, last, place, htokens, hscan⟩ := ih h (endsLine_rest hread hs)
    refine ⟨front, last, place, htokens, ?_⟩
    rw [List.cons_append, scanFrom_text (Lexeme.read_append hread (hs.breaks behind) position)]
    exact hscan
  | case5 nesting pending position c s lexeme taken rest hnot hread e haccept => cases h
  | case6 nesting pending position c s lexeme taken rest hnot hread kind next haccept ih =>
    obtain ⟨front, last, place, htokens, hscan⟩ := ih h (endsLine_rest hread hs)
    refine ⟨pending.tokens ++ [⟨kind, position⟩] ++ front, last, place, ?_, ?_⟩
    · rw [List.append_assoc, ← htokens]
      rfl
    · have hread' := Lexeme.read_append hread (hs.breaks behind) position
      have htext : ∀ decoded, lexeme ≠ .text decoded := by
        rintro decoded rfl
        exact hnot decoded rfl
      rw [List.cons_append, scanFrom_accept hread' htext haccept]
      show (scanFrom next .none _ (rest ++ behind)).prepend _ = _
      rw [hscan]
      simp [Scan.prepend]

end Token

/-! ## Scanning the second source -/

/-- The kinds of tokens with a text in front, which becomes one with a text that is there. -/
def TokenKind.withText (content : String) : List TokenKind → List TokenKind
  | .text next :: rest => .text (content ++ next) :: rest
  | kinds => if content.isEmpty then kinds else .text content :: kinds

theorem TokenKind.withText_empty (kinds : List TokenKind) : withText "" kinds = kinds := by
  unfold withText
  split
  · rw [String.empty_append]
  · rfl

theorem TokenKind.withText_of_ne {content : String} (hc : content ≠ "") {kinds : List TokenKind}
    (h : ∀ next rest, kinds ≠ .text next :: rest) :
    withText content kinds = .text content :: kinds := by
  unfold withText
  split
  · next next rest => exact absurd rfl (h next rest)
  · rw [if_neg (by simpa using hc)]

namespace Token

open TokenKind (withText withText_empty withText_of_ne)

/-- Pending text with more text in front of it, before tokens that start with no text. -/
theorem Pending.kinds_append {pending pending' : Pending} {content : String}
    (hp : pending'.text = content ++ pending.text) {kinds : List TokenKind}
    (h : ∀ next rest, kinds ≠ .text next :: rest) :
    pending'.tokens.map Token.kind ++ kinds =
      withText content (pending.tokens.map Token.kind ++ kinds) := by
  by_cases hq : pending.text = ""
  · rw [hq, String.append_empty] at hp
    rw [Pending.tokens_of_empty hq, List.map_nil, List.nil_append]
    by_cases hc : content = ""
    · rw [Pending.tokens_of_empty (hp.trans hc), hc, withText_empty]
      rfl
    · rw [Pending.kinds_of_ne (hp ▸ hc), hp, withText_of_ne hc h]
      rfl
  · have hne : pending'.text ≠ "" := by
      rw [hp]
      simp [hq]
    rw [Pending.kinds_of_ne hne, Pending.kinds_of_ne hq, hp]
    rfl

theorem kind_ne_text {nesting next : Nesting} {position : Position} {lexeme : Lexeme}
    {kind : TokenKind} (h : accept nesting position lexeme = .ok (kind, next))
    (htext : ∀ decoded, lexeme ≠ .text decoded) (content : String) : kind ≠ .text content := by
  have ofAlternate {word : String} {make : Unit → TokenKind × Nesting}
      (ha : (checkAlternate nesting position word).map make = .ok (kind, next))
      (hmake : (make ()).1 ≠ .text content) : kind ≠ .text content := by
    cases hc : checkAlternate nesting position word with
    | error fault =>
      rw [hc] at ha
      cases ha
    | ok =>
      rw [hc] at ha
      rwa [show make () = (kind, next) from Except.ok.inj ha] at hmake
  cases lexeme with
  | text decoded => exact absurd rfl (htext decoded)
  | elseIf word condition => exact ofAlternate h TokenKind.noConfusion
  | otherwise => exact ofAlternate h TokenKind.noConfusion
  | close =>
    simp only [accept] at h
    split at h <;> cases h <;> exact TokenKind.noConfusion
  | _ =>
    cases h
    exact TokenKind.noConfusion

theorem Nesting.exists_cons {nesting outer : Nesting} {opened : Opened} {start : Position}
    (h : nesting.map Prod.fst = ((opened, start) :: outer).map Prod.fst) :
    ∃ start' outer', nesting = (opened, start') :: outer' ∧
      outer'.map Prod.fst = outer.map Prod.fst := by
  obtain ⟨⟨opened', start'⟩, outer', rfl, rfl, houter⟩ := List.map_eq_cons_iff.1 h
  exact ⟨start', outer', rfl, houter⟩

/-- What a token opens or closes does not hang on places. -/
theorem accept_congr {nesting nesting' next : Nesting} {position : Position} {lexeme : Lexeme}
    {kind : TokenKind} (h : accept nesting position lexeme = .ok (kind, next))
    (hn : nesting'.map Prod.fst = nesting.map Prod.fst) (position' : Position) :
    ∃ next', accept nesting' position' lexeme = .ok (kind, next') ∧
      next'.map Prod.fst = next.map Prod.fst := by
  cases lexeme with
  | text decoded | bind name paren | embedded name quoted =>
    cases h
    exact ⟨nesting', rfl, hn⟩
  | ifThen condition | beginBlock =>
    cases h
    refine ⟨_, rfl, ?_⟩
    rw [List.map_cons, List.map_cons, hn]
  | elseIf word condition =>
    simp only [accept] at h
    cases hc : checkAlternate nesting position word with
    | error fault =>
      rw [hc] at h
      cases h
    | ok =>
      rw [hc] at h
      cases h
      obtain ⟨start, outer, rfl⟩ := checkAlternate_ok hc
      obtain ⟨start', outer', rfl, houter⟩ := Nesting.exists_cons hn
      exact ⟨_, rfl, hn⟩
  | otherwise =>
    simp only [accept] at h
    cases hc : checkAlternate nesting position "ELSE" with
    | error fault =>
      rw [hc] at h
      cases h
    | ok =>
      rw [hc] at h
      cases h
      obtain ⟨start, outer, rfl⟩ := checkAlternate_ok hc
      obtain ⟨start', outer', rfl, houter⟩ := Nesting.exists_cons hn
      refine ⟨_, rfl, ?_⟩
      rw [List.map_cons, List.map_cons, houter]
  | close =>
    obtain _ | ⟨⟨_ | _, start⟩, outer⟩ := nesting
    · cases h
    all_goals
      cases h
      obtain ⟨start', outer', rfl, houter⟩ := Nesting.exists_cons hn
      exact ⟨outer', rfl, houter⟩

/-- A source is scanned in the same way wherever it stands, and text in front of it joins its first
text. -/
theorem scanFrom_behind {nesting nesting' : Nesting} {pending pending' : Pending}
    {position : Position} {s : List Char} {content : String}
    (h : (scanFrom nesting pending position s).failure = none)
    (hn : nesting'.map Prod.fst = nesting.map Prod.fst)
    (hp : pending'.text = content ++ pending.text) (position' : Position) :
    (scanFrom nesting' pending' position' s).failure = none ∧
      (scanFrom nesting' pending' position' s).tokens.map Token.kind =
        withText content ((scanFrom nesting pending position s).tokens.map Token.kind) := by
  fun_induction scanFrom nesting pending position s
    generalizing nesting' pending' position' content with
  | case1 pending position =>
    obtain rfl := List.map_eq_nil_iff.1 hn
    rw [scanFrom]
    refine ⟨rfl, ?_⟩
    have hnil : ∀ next rest, ([] : List TokenKind) ≠ .text next :: rest :=
      fun _ _ => (List.cons_ne_nil _ _).symm
    have hkinds := Pending.kinds_append hp hnil
    rwa [List.append_nil, List.append_nil] at hkinds
  | case2 pending position opened start outer => cases h
  | case3 nesting pending position c s e hread => cases h
  | case4 nesting pending position c s decoded taken rest hread ih =>
    rw [scanFrom_text (Lexeme.read_anywhere hread position')]
    refine ih h hn ?_ _
    rw [Pending.push_text, Pending.push_text, hp, String.append_assoc]
  | case5 nesting pending position c s lexeme taken rest hnot hread e haccept => cases h
  | case6 nesting pending position c s lexeme taken rest hnot hread kind next haccept ih =>
    have htext : ∀ decoded, lexeme ≠ .text decoded := by
      rintro decoded rfl
      exact hnot decoded rfl
    obtain ⟨next', haccept', hnext⟩ := accept_congr haccept hn position'
    rw [scanFrom_accept (Lexeme.read_anywhere hread position') htext haccept']
    have hnone : Pending.none.text = "" ++ Pending.none.text := String.empty_append.symm
    obtain ⟨hcomplete, hkinds⟩ := ih h hnext hnone (position'.after (c :: taken))
    rw [withText_empty] at hkinds
    refine ⟨hcomplete, ?_⟩
    simp only [Scan.prepend, List.map_append, List.append_assoc]
    rw [hkinds]
    apply Pending.kinds_append hp
    rintro content rest heq
    exact kind_ne_text haccept htext content (List.cons.inj heq).1

end Token

/-! ## Trees in a row -/

/-- The nodes of two sources in a row are theirs in a row, where two texts that meet become one. -/
inductive Joins : List Node → List Node → List Node → Prop
  | apart (first second : List Node) : Joins first second (first ++ second)
  | merged (first second : List Node) (content next : String) :
    Joins (first ++ [.text content]) (.text next :: second)
      (first ++ .text (content ++ next) :: second)

theorem Chain.exists_marks :
    ∀ chain : Chain, ∃ marks : List Mark, chain.marks = marks ++ [⟨.endIf, none⟩] := by
  intro chain
  cases chain with
  | done => exact ⟨[], rfl⟩
  | elseIf condition position body rest =>
    obtain ⟨marks, hmarks⟩ := Chain.exists_marks rest
    refine ⟨⟨.elseIf condition, some position⟩ :: (Node.marksAll body ++ marks), ?_⟩
    rw [Chain.marks, hmarks, List.cons_append, List.append_assoc]
  | otherwise position body => exact ⟨⟨.otherwise, some position⟩ :: Node.marksAll body, rfl⟩

/-- A node that is no text does not end in the mark of one. -/
theorem Node.exists_marks (node : Node) :
    (∃ content, node = .text content) ∨
      ∃ marks mark, node.marks = marks ++ [mark] ∧ ∀ content, mark.kind ≠ .text content := by
  cases node with
  | text content => exact .inl ⟨content, rfl⟩
  | bind name paren => exact .inr ⟨[], _, rfl, fun _ => nofun⟩
  | embedded name quoted => exact .inr ⟨[], _, rfl, fun _ => nofun⟩
  | chain condition position body rest =>
    obtain ⟨marks, hmarks⟩ := rest.exists_marks
    refine .inr ⟨⟨.ifThen condition, some position⟩ :: (Node.marksAll body ++ marks),
      ⟨.endIf, none⟩, ?_, fun _ => nofun⟩
    rw [Node.marks, hmarks, List.cons_append, List.append_assoc]
  | block body => exact .inr ⟨⟨.beginBlock, none⟩ :: Node.marksAll body, _, rfl, fun _ => nofun⟩

theorem Node.marksAll_endsText {nodes : List Node} {front : List TokenKind} {content : String}
    (h : (Node.marksAll nodes).map Mark.kind = front ++ [.text content]) :
    ∃ before, nodes = before ++ [.text content] ∧ (Node.marksAll before).map Mark.kind = front := by
  obtain rfl | ⟨before, node, rfl⟩ := List.eq_nil_or_concat nodes
  · simp [Node.marksAll] at h
  · rw [List.concat_eq_append] at h ⊢
    rw [Node.marksAll_append, Node.marksAll, Node.marksAll, List.append_nil, List.map_append] at h
    obtain ⟨found, rfl⟩ | ⟨marks, mark, hmarks, hmark⟩ := node.exists_marks
    · obtain ⟨hfront, hlast⟩ := List.append_inj' h rfl
      obtain rfl : found = content := TokenKind.text.inj (List.cons.inj hlast).1
      exact ⟨before, rfl, hfront⟩
    · rw [hmarks, List.map_append, ← List.append_assoc] at h
      exact absurd (List.cons.inj (List.append_inj' h rfl).2).1 (hmark content)

theorem Node.marksAll_startsText {nodes : List Node} {next : String} {rest : List TokenKind}
    (h : (Node.marksAll nodes).map Mark.kind = .text next :: rest) :
    ∃ second, nodes = .text next :: second := by
  cases nodes with
  | nil => cases h
  | cons node second =>
    cases node with
    | text found =>
      obtain rfl : found = next := TokenKind.text.inj (List.cons.inj h).1
      exact ⟨second, rfl⟩
    | _ => exact absurd (List.cons.inj h).1 nofun

/-- Nodes whose last text is joined by a text in front of others are nodes in a row. -/
theorem Joins.of_kinds {first : List Node} {front : List TokenKind} {last : Pending}
    (h : (Node.marksAll first).map Mark.kind = front ++ last.tokens.map Token.kind)
    (second : List Node) :
    ∃ joined, Joins first second joined ∧ (Node.marksAll joined).map Mark.kind =
      front ++ TokenKind.withText last.text ((Node.marksAll second).map Mark.kind) := by
  by_cases hlast : last.text = ""
  · rw [Pending.tokens_of_empty hlast, List.map_nil, List.append_nil] at h
    refine ⟨_, .apart first second, ?_⟩
    rw [hlast, TokenKind.withText_empty, Node.marksAll_append, List.map_append, h]
  · rw [Pending.kinds_of_ne hlast] at h
    obtain ⟨before, rfl, hbefore⟩ := Node.marksAll_endsText h
    by_cases htext : ∃ next rest, second = .text next :: rest
    · obtain ⟨next, rest, rfl⟩ := htext
      refine ⟨_, .merged before rest last.text next, ?_⟩
      rw [Node.marksAll_append, List.map_append, hbefore]
      rfl
    · refine ⟨_, .apart _ second, ?_⟩
      rw [Node.marksAll_append, List.map_append, h, TokenKind.withText_of_ne hlast,
        List.append_assoc]
      · rfl
      · intro next rest hkinds
        obtain ⟨others, rfl⟩ := Node.marksAll_startsText hkinds
        exact htext ⟨next, others, rfl⟩

theorem Joins.depthAll_eq {first second joined : List Node} (h : Joins first second joined) :
    Node.depthAll joined = max (Node.depthAll first) (Node.depthAll second) := by
  cases h with
  | apart => exact Node.depthAll_append ..
  | merged before rest content next =>
    simp [Node.depthAll_append, Node.depthAll, Node.depth]

/-- Two sources in a row, of which the first ends with a line, yield their trees in a row. -/
theorem Tree.ofSource_append {first second : String} {t u : Tree} (ht : ofSource first = .ok t)
    (hu : ofSource second = .ok u) (hline : Text.EndsLine first.toList) :
    ∃ built joined, ofSource (first ++ second) = .ok built ∧ Joins t.nodes u.nodes joined ∧
      built.erase = Tree.erase ⟨joined⟩ := by
  have hkinds {source : String} {tree : Tree} (h : ofSource source = .ok tree) :
      tree.marks.map Mark.kind = (Token.scan source).tokens.map Token.kind := by
    rw [(marks_of_ofSource h).2, List.map_map]
    rfl
  obtain ⟨front, last, place, htokens, hscan⟩ :=
    Token.scanFrom_append (marks_of_ofSource ht).1 hline second.toList
  have hpending : last.text = last.text ++ Pending.none.text := String.append_empty.symm
  have hnesting : ([] : Nesting).map Prod.fst = ([] : Nesting).map Prod.fst := rfl
  obtain ⟨hcomplete, hbehind⟩ :=
    Token.scanFrom_behind (marks_of_ofSource hu).1 hnesting hpending place
  -- the kinds of both halves are those of the nodes of both trees in a row
  have hfirst : t.marks.map Mark.kind = front.map Token.kind ++ last.tokens.map Token.kind := by
    rw [hkinds ht, Token.scan, htokens, List.map_append]
  obtain ⟨joined, hjoins, hjoined⟩ := Joins.of_kinds hfirst u.nodes
  have hrow : (Token.scan (first ++ second)).tokens.map Token.kind =
      (Tree.mk joined).marks.map Mark.kind := by
    rw [Token.scan, String.toList_append, hscan, Scan.prepend, List.map_append, hbehind]
    refine Eq.trans ?_ hjoined.symm
    rw [show (Node.marksAll u.nodes).map Mark.kind = _ from hkinds hu]
    rfl
  have hfailure : (Token.scan (first ++ second)).failure = none := by
    rw [Token.scan, String.toList_append, hscan]
    exact hcomplete
  have hdepth : (Tree.mk joined).depth ≤ maxNesting := by
    rw [Tree.depth, hjoins.depthAll_eq]
    exact Nat.max_le.2 ⟨depth_le_of_ofItems ht, depth_le_of_ofItems hu⟩
  obtain ⟨built, hbuilt, herase⟩ := ofItems_of_marks hrow hdepth
  refine ⟨built, joined, ?_, hjoins, herase⟩
  rw [ofSource, Scan.items, hfailure]
  simpa using hbuilt

/-! ## Meanings without numbers -/

namespace Meaning

/-- The meaning without what happened to the branches. -/
def plain (m : Meaning) : Meaning := { m with states := [] }

theorem map_plain_inRow (r next : Except Error Meaning) :
    (inRow r next).map plain = inRow (r.map plain) (next.map plain) := by
  cases r with
  | error e => rfl
  | ok m => cases next <;> rfl

/-- What only adds to what happened to branches gives the same without it. -/
theorem map_plain_congr {f f' g : Meaning → Meaning} {r r' : Except Error Meaning}
    (h : r.map plain = r'.map plain) (hf : ∀ m, (f m).plain = g m.plain)
    (hf' : ∀ m, (f' m).plain = g m.plain) : (r.map f).map plain = (r'.map f').map plain := by
  have hmap {f : Meaning → Meaning} (r : Except Error Meaning) (hf : ∀ m, (f m).plain = g m.plain) :
      (r.map f).map plain = (r.map plain).map g := by
    cases r with
    | error e => rfl
    | ok m => exact congrArg Except.ok (hf m)
  rw [hmap r hf, h, hmap r' hf']

theorem map_plain_taken {r r' : Except Error Meaning} (h : r.map plain = r'.map plain)
    (branch branch' : NodeId) :
    (r.map (taken branch)).map plain = (r'.map (taken branch')).map plain :=
  map_plain_congr (g := fun m => { m with live := true }) h (fun _ => rfl) (fun _ => rfl)

theorem map_plain_passedOver {r r' : Except Error Meaning} (h : r.map plain = r'.map plain)
    (branch branch' : NodeId) :
    (r.map (passedOver branch)).map plain = (r'.map (passedOver branch')).map plain :=
  map_plain_congr (g := id) h (fun _ => rfl) (fun _ => rfl)

theorem map_plain_block (r : Except Error Meaning) :
    (block r).map plain = block (r.map plain) := by
  cases r with
  | error e => rfl
  | ok m =>
    show m.settled.map plain = m.plain.settled
    unfold settled
    rw [show m.plain.live = m.live from rfl, show m.plain.absent = m.absent from rfl]
    cases m.live with
    | false => rfl
    | true => cases m.absent <;> rfl

end Meaning

theorem Surroundings.map_plain_choose (s : Surroundings) (condition : String)
    {yes yes' no no' : Except Error Meaning} (hyes : yes.map Meaning.plain = yes'.map Meaning.plain)
    (hno : no.map Meaning.plain = no'.map Meaning.plain) :
    (s.choose condition yes no).map Meaning.plain =
      (s.choose condition yes' no').map Meaning.plain := by
  unfold choose
  split
  · rfl
  · exact hyes
  · exact hno

open Meaning (plain)

mutual

/-- What a node says depends neither on where its branches start nor on its number. -/
theorem Node.plain_meaning (s : Surroundings) (optional : Bool) :
    ∀ (node : Node) (start start' : NodeId),
      (node.meaning s optional start).map plain = (node.erase.meaning s optional start').map plain
  | .text content, _, _ => rfl
  | .bind name paren, _, _ => rfl
  | .embedded name quoted, _, _ => rfl
  | .chain condition position body rest, start, start' => by
    rw [Node.erase, Node.meaning, Node.meaning]
    apply s.map_plain_choose condition
    · exact Meaning.map_plain_taken (Node.plain_meaningAll s optional body start start') _ _
    · exact Meaning.map_plain_passedOver (Chain.plain_meaning s optional rest _ _) _ _
  | .block body, start, start' => by
    have hbody := Node.plain_meaningAll s true body start start'
    rw [Node.erase, Node.meaning, Node.meaning, Meaning.map_plain_block, hbody,
      ← Meaning.map_plain_block]

theorem Chain.plain_meaning (s : Surroundings) (optional : Bool) :
    ∀ (chain : Chain) (start start' : NodeId),
      (chain.meaning s optional start).map plain = (chain.erase.meaning s optional start').map plain
  | .done, _, _ => rfl
  | .elseIf condition position body rest, start, start' => by
    rw [Chain.erase, Chain.meaning, Chain.meaning]
    apply s.map_plain_choose condition
    · exact Meaning.map_plain_taken (Node.plain_meaningAll s optional body start start') _ _
    · exact Meaning.map_plain_passedOver (Chain.plain_meaning s optional rest _ _) _ _
  | .otherwise position body, start, start' => by
    rw [Chain.erase, Chain.meaning, Chain.meaning]
    exact Meaning.map_plain_taken (Node.plain_meaningAll s optional body start start') _ _

theorem Node.plain_meaningAll (s : Surroundings) (optional : Bool) :
    ∀ (nodes : List Node) (start start' : NodeId),
      (Node.meaningAll s optional start nodes).map plain =
        (Node.meaningAll s optional start' (Node.eraseAll nodes)).map plain
  | [], _, _ => rfl
  | node :: rest, start, start' => by
    rw [Node.eraseAll, Node.meaningAll, Node.meaningAll, Meaning.map_plain_inRow,
      Node.plain_meaning s optional node start start', Node.plain_meaningAll s optional rest,
      ← Meaning.map_plain_inRow]

end

/-! ## What meanings say in a row -/

namespace Meaning

/-- The text and the bind values of a meaning, placeholders as question marks. -/
def content (m : Meaning) : String × List BoundValue :=
  (Piece.layOut .question 0 m.pieces, Piece.slots m.pieces)

/-- Two texts in a row, each with its bind values: the first error wins. -/
def followed : Except Error (String × List BoundValue) → Except Error (String × List BoundValue) →
    Except Error (String × List BoundValue)
  | .error e, _ => .error e
  | .ok _, .error e => .error e
  | .ok (sql, binds), .ok (more, others) => .ok (sql ++ more, binds ++ others)

theorem followed_assoc (x y z : Except Error (String × List BoundValue)) :
    followed (followed x y) z = followed x (followed y z) := by
  cases x with
  | error e => rfl
  | ok x =>
    cases y with
    | error e => rfl
    | ok y =>
      cases z with
      | error e => rfl
      | ok z => simp [followed, String.append_assoc]

end Meaning

theorem Piece.layOut_question (index index' : Nat) (pieces more : List Piece) :
    layOut .question index (pieces ++ more) =
      layOut .question index' pieces ++ layOut .question 0 more := by
  -- a question mark is the same at every index, so the index may change on the way
  have hindex (index index' : Nat) (pieces : List Piece) :
      layOut .question index pieces = layOut .question index' pieces := by
    induction pieces generalizing index index' with
    | nil => rfl
    | cons p rest ih =>
      cases p with
      | text content => exact congrArg (content ++ ·) (ih index index')
      | slot bound => exact congrArg ("?" ++ ·) (ih (index + 1) (index' + 1))
  induction pieces generalizing index index' with
  | nil => exact (hindex index 0 more).trans String.empty_append.symm
  | cons p rest ih =>
    cases p with
    | text content =>
      rw [List.cons_append, layOut, layOut, ih index index', String.append_assoc]
    | slot bound =>
      rw [List.cons_append, layOut, layOut, ih (index + 1) (index' + 1), String.append_assoc]
      rfl

namespace Meaning

theorem map_content_inRow (r next : Except Error Meaning) :
    (inRow r next).map content = followed (r.map content) (next.map content) := by
  cases r with
  | error e => rfl
  | ok m =>
    cases next with
    | error e => rfl
    | ok n =>
      show Except.ok ((m.append n).content) = Except.ok (_, _)
      rw [content, append, Piece.layOut_question 0 0, Piece.slots_append]

theorem map_content_of_plain {r r' : Except Error Meaning} (h : r.map plain = r'.map plain) :
    r.map content = r'.map content := by
  have hplain (r : Except Error Meaning) : (r.map plain).map content = r.map content := by
    cases r <;> rfl
  rw [← hplain r, h, hplain]

end Meaning

open Meaning (content followed)

/-- Nodes in a row say what they say one behind the other. -/
theorem Node.content_append (s : Surroundings) (optional : Bool) (first second : List Node)
    (start start' : NodeId) :
    (Node.meaningAll s optional start (first ++ second)).map content =
      followed ((Node.meaningAll s optional start first).map content)
        ((Node.meaningAll s optional start' second).map content) := by
  have hnumber (nodes : List Node) (start start' : NodeId) :
      (Node.meaningAll s optional start nodes).map content =
        (Node.meaningAll s optional start' nodes).map content := by
    apply Meaning.map_content_of_plain
    rw [Node.plain_meaningAll s optional nodes start 0, Node.plain_meaningAll s optional nodes]
  induction first generalizing start with
  | nil =>
    rw [List.nil_append, hnumber second start start']
    cases Node.meaningAll s optional start' second with
    | error e => rfl
    | ok m =>
      show _ = Except.ok ("" ++ m.content.1, m.content.2)
      rw [String.empty_append]
      rfl
  | cons node rest ih =>
    rw [List.cons_append, Node.meaningAll, Node.meaningAll, Meaning.map_content_inRow,
      Meaning.map_content_inRow, ih, Meaning.followed_assoc]

/-- Sequences that are joined say what they say one behind the other. -/
theorem Joins.content {first second joined : List Node} (h : Joins first second joined)
    (s : Surroundings) (optional : Bool) (start : NodeId) :
    (Node.meaningAll s optional start joined).map Meaning.content =
      followed ((Node.meaningAll s optional start first).map Meaning.content)
        ((Node.meaningAll s optional start second).map Meaning.content) := by
  cases h with
  | apart => exact Node.content_append s optional first second start start
  | merged before rest last next =>
    have htext (text : String) :
        (Node.meaningAll s optional start [.text text]).map Meaning.content = .ok (text, []) := by
      show Except.ok (text ++ "", []) = _
      rw [String.append_empty]
    have hcons (text : String) :
        (Node.meaningAll s optional start (.text text :: rest)).map Meaning.content =
          followed (.ok (text, []))
            ((Node.meaningAll s optional start rest).map Meaning.content) := by
      rw [← htext text]
      exact Node.content_append s optional [.text text] rest start start
    have hmet : followed (.ok (last, [])) (.ok (next, [])) = .ok (last ++ next, []) := rfl
    rw [Node.content_append s optional before _ start start, hcons, ← hmet,
      Node.content_append s optional before _ start start, htext, hcons, Meaning.followed_assoc,
      Meaning.followed_assoc]

/-! ## Rendering one source behind the other -/

namespace Statement

/-- The text and the bind values of a statement. -/
def content (st : Statement) : String × List BoundValue := (st.sql, st.binds)

theorem map_content_ok {r : Except Error Statement} {c : String × List BoundValue}
    (h : r.map content = .ok c) : ∃ st, r = .ok st ∧ st.content = c := by
  cases r with
  | error e => cases h
  | ok st => exact ⟨st, rfl, Except.ok.inj h⟩

theorem map_content_error {r : Except Error Statement} {e : Error}
    (h : r.map content = .error e) : r = .error e := by
  cases r with
  | error e' => exact congrArg Except.error (Except.error.inj h)
  | ok st => cases h

end Statement

namespace Renderer

/-- Rendering a source that yields a tree gives what the tree means. -/
theorem map_content_render {r : Renderer} {source : String} {t : Tree}
    (ht : Tree.ofSource source = .ok t) (hstyle : r.settings.placeholder = .question)
    (hclean : r.settings.clauseCleanup = false) (name : Option String) (l : Lookup) :
    (r.render name source l).result.map Statement.content =
      (t.meaning ⟨l, r.evaluator, r.mappers⟩).map content := by
  have hresult := r.result_eq r.settings.coverage (name.getD "") t l
  rw [render, Template.parse_of_ofSource ht]
  show (r.runTree r.settings.coverage (name.getD "") t l).result.map _ = _
  rw [hresult]
  cases t.meaning ⟨l, r.evaluator, r.mappers⟩ with
  | error e => rfl
  | ok m => simp [Except.map, Meaning.statement, hclean, hstyle, content, Statement.content]

/-- Two templates in a row, of which the first is empty or ends with a line, make a template. Its
text and its bind values are those of the first with those of the second behind them; it fails as
the first one does, or else as the second one does. -/
theorem render_append {r : Renderer} {name : Option String} {first second : String}
    {t u : Template} (hstyle : r.settings.placeholder = .question)
    (hclean : r.settings.clauseCleanup = false) (hline : Text.EndsLine first.toList)
    (ht : Template.parse name first = .ok t) (hu : Template.parse name second = .ok u)
    (l : Lookup) :
    (∃ joined, Template.parse name (first ++ second) = .ok joined) ∧
    (∀ st next, (r.render name first l).result = .ok st →
      (r.render name second l).result = .ok next →
      ∃ both, (r.render name (first ++ second) l).result = .ok both ∧
        both.sql = st.sql ++ next.sql ∧ both.binds = st.binds ++ next.binds) ∧
    (∀ e, (r.render name first l).result = .error e →
      (r.render name (first ++ second) l).result = .error e) ∧
    (∀ st e, (r.render name first l).result = .ok st →
      (r.render name second l).result = .error e →
      (r.render name (first ++ second) l).result = .error e) := by
  obtain ⟨built, nodes, hbuilt, hjoins, herase⟩ :=
    Tree.ofSource_append (Template.ofSource_of_parse ht) (Template.ofSource_of_parse hu) hline
  -- the tree of both sources differs from the joined nodes in places only
  have hmeaning : (built.meaning ⟨l, r.evaluator, r.mappers⟩).map content =
      (Node.meaningAll ⟨l, r.evaluator, r.mappers⟩ false 0 nodes).map content := by
    have hnodes : Node.eraseAll built.nodes = Node.eraseAll nodes := congrArg Tree.nodes herase
    apply Meaning.map_content_of_plain
    rw [Tree.meaning, Node.plain_meaningAll _ _ built.nodes 0 0, hnodes,
      ← Node.plain_meaningAll _ _ nodes 0 0]
  have hboth : (r.render name (first ++ second) l).result.map Statement.content =
      followed ((r.render name first l).result.map Statement.content)
        ((r.render name second l).result.map Statement.content) := by
    rw [map_content_render hbuilt hstyle hclean, hmeaning, hjoins.content,
      map_content_render (Template.ofSource_of_parse ht) hstyle hclean,
      map_content_render (Template.ofSource_of_parse hu) hstyle hclean]
    rfl
  refine ⟨⟨_, Template.parse_of_ofSource hbuilt name⟩, ?_, ?_, ?_⟩
  · intro st next hst hnext
    rw [hst, hnext] at hboth
    obtain ⟨both, hresult, hcontent⟩ := Statement.map_content_ok hboth
    obtain ⟨hsql, hbinds⟩ := Prod.mk.inj hcontent
    exact ⟨both, hresult, hsql, hbinds⟩
  · intro e he
    rw [he] at hboth
    exact Statement.map_content_error hboth
  · intro st e hst he
    rw [hst, he] at hboth
    exact Statement.map_content_error hboth

/-- A line that ends in a comment with what would open a literal or a directive. -/
def selectLine : Template where
  name := none
  source := "SELECT :a -- it's /*a\n"
  tree := ⟨[.text "SELECT ", .bind "a" false, .text " -- it's /*a\n"]⟩
  ofSource_source := by with_unfolding_all rfl

/-- What may follow a line: a text that goes on with the one in front, and a branch. -/
def fromLine : Template where
  name := none
  source := "FROM t/*IF true*/ WHERE b = /*b*/1/*END*/"
  tree := ⟨[.text "FROM t", .chain "true" ⟨6, 1, 7⟩ [.text " WHERE b = ", .bind "b" false] .done]⟩
  ofSource_source := by with_unfolding_all rfl

def lineParameters : Parameters := .ofList [("a", .int 1), ("b", .null)]

theorem render_append_lines :
    Text.EndsLine selectLine.source.toList ∧
    Template.parse none selectLine.source = .ok selectLine ∧
    Template.parse none fromLine.source = .ok fromLine ∧
    ∃ both, (stock.render none (selectLine.source ++ fromLine.source)
        lineParameters.lookup).result = .ok both ∧
      both.sql = "SELECT ? -- it's /*a\n" ++ "FROM t WHERE b = ?" ∧
      both.binds = [⟨"a", .int 1⟩] ++ [⟨"b", .null⟩] := by
  have hline : Text.EndsLine selectLine.source.toList := by
    intro c hc
    exact (Option.some.inj hc).symm
  have hselect := Template.parse_of_ofSource selectLine.ofSource_source none
  have hfrom := Template.parse_of_ofSource fromLine.ofSource_source none
  refine ⟨hline, hselect, hfrom, ?_⟩
  obtain ⟨-, hboth, -⟩ := render_append (r := stock) rfl rfl hline hselect hfrom
    lineParameters.lookup
  refine hboth ⟨_, _, none⟩ ⟨_, _, none⟩ ?_ ?_
  · rw [render, hselect]
    rfl
  · rw [render, hfrom]
    rfl

end Renderer

end TwoWaySql
