import Mathlib.Data.List.Chain
import TwoWaySql.Proofs.Appending
import TwoWaySql.Proofs.Atoms

/-!
# Tokens and the source they stand for

The tokens of a source stand for consecutive slices of it, and nothing of the source is left out.
This file

1. says how a token is written (`TokenKind.Written`) and what it means that tokens stand for a text
   slice by slice, each where it says (`Token.Sliced`);
2. shows that a lexeme that is no text is written as its token (`Lexeme.written_of_read`);
3. shows for a scan, from what text is pending and which slice it came from (`Pending.Holds`), that
   its tokens stand for the source (`Token.scanFrom_sliced`), and that no text of it meets another
   one (`Token.scanFrom_isChain`);
4. concludes that the tokens of a source account for all of it, and that a source without
   directives, names behind a colon and escapes is rendered as it stands
   (`Token.ofSource_accounts`).
-/

namespace TwoWaySql

open Region (atoms)

/-! ## Slices -/

/-- The content of a comment that is a directive. The first closing mark ends the comment. -/
structure Directive.IsContent (content : List Char) (d : Directive) : Prop where
  starts : isDirective content = true
  closed : Text.cutComment? (content ++ ['*', '/']) = some (content, [])
  read : Directive.read content = .ok d

/-- The marks that a directive can be. A variable is none. -/
def Directive.marks : Directive → List TokenKind
  | bind _ | embedded _ _ => []
  | ifThen condition => [.ifThen condition]
  | elseIf _ condition => [.elseIf condition]
  | otherwise => [.otherwise]
  | beginBlock => [.beginBlock]
  | close => [.endIf, .endBlock]

/-- How a token is written in front of the rest of a source. -/
inductive TokenKind.Written : TokenKind → (slice rest : List Char) → Prop
  | text {slice content rest : List Char} (decodes : Decodes slice content rest) :
    Written (.text (String.ofList content)) slice rest
  /-- A bound name behind a colon, as far as it goes. -/
  | sigil {name rest : List Char} (starts : name.head?.any Name.isStart = true)
    (run : Lexeme.nameRun (name ++ rest) = name) :
    Written (.bind (String.ofList name) false) (':' :: name) rest
  | bind {content dummy rest : List Char} {name : String} {paren : Bool} {position : Position}
    (comment : Directive.IsContent content (.bind name))
    (skipped : Dummy.read position (dummy ++ rest) = .ok ⟨paren, dummy, rest⟩) :
    Written (.bind name paren) (Text.comment content ++ dummy) rest
  | embedded {content dummy rest : List Char} {name : String} {quoted paren : Bool}
    {position : Position} (comment : Directive.IsContent content (.embedded name quoted))
    (skipped : Dummy.read position (dummy ++ rest) = .ok ⟨paren, dummy, rest⟩) :
    Written (.embedded name quoted) (Text.comment content ++ dummy) rest
  | mark {content rest : List Char} {d : Directive} {kind : TokenKind}
    (comment : Directive.IsContent content d) (mark : kind ∈ d.marks) :
    Written kind (Text.comment content) rest

/-- The tokens stand for the text `s`, slice by slice, behind the part `front` of the source. -/
inductive Token.Sliced : (front : List Char) → List Token → (s : List Char) → Prop
  | nil {front : List Char} : Sliced front [] []
  | cons {front slice rest : List Char} {token : Token} {tokens : List Token}
    (nonempty : slice ≠ []) (place : token.position = Position.start.after front)
    (offset : token.position.offset = (String.ofList front).utf8ByteSize)
    (written : token.kind.Written slice rest) (others : Sliced (front ++ slice) tokens rest) :
    Sliced front (token :: tokens) (slice ++ rest)

/-- The offset behind a text is its length in bytes. -/
theorem Position.offset_after (p : Position) (s : List Char) :
    (p.after s).offset = p.offset + (String.ofList s).utf8ByteSize := by
  induction s generalizing p with
  | nil => rfl
  | cons c rest ih =>
    have hnext : (p.next c).offset = p.offset + c.utf8Size := by
      unfold next
      split <;> rfl
    have hcons : String.ofList (c :: rest) = String.singleton c ++ String.ofList rest := by
      rw [String.singleton_eq_ofList, ← String.ofList_append]
      rfl
    calc ((p.next c).after rest).offset
        = p.offset + c.utf8Size + (String.ofList rest).utf8ByteSize := by rw [ih, hnext]
      _ = p.offset + (String.ofList (c :: rest)).utf8ByteSize := by
        rw [hcons, String.utf8ByteSize_append, String.utf8ByteSize_singleton, Nat.add_assoc]

/-- The offset behind a part that starts a source. -/
theorem Position.offset_start (front : List Char) :
    (start.after front).offset = (String.ofList front).utf8ByteSize := by
  rw [offset_after]
  exact Nat.zero_add _

/-! ## Lexemes that are no text -/

namespace Lexeme

variable {c : Char} {s taken rest : List Char} {position : Position} {lexeme : Lexeme}

theorem text_of_readEscape (s : List Char) : ∃ decoded, (readEscape s).lexeme = .text decoded := by
  unfold readEscape
  split <;> exact ⟨_, rfl⟩

theorem text_of_readHyphen (s : List Char) : ∃ decoded, (readHyphen s).lexeme = .text decoded := by
  unfold readHyphen
  split
  · split <;> exact ⟨_, rfl⟩
  · exact ⟨_, rfl⟩

theorem text_of_readLiteral {r : Reading} (h : readLiteral position s = .ok r) :
    ∃ decoded, r.lexeme = .text decoded := by
  unfold readLiteral at h
  split at h <;> cases h
  exact ⟨_, rfl⟩

/-- The run of name characters keeps the character that starts a name. -/
theorem head?_nameRun (h : s.head?.any Name.isStart = true) :
    (nameRun s).head?.any Name.isStart = true := by
  cases s with
  | nil => cases h
  | cons c s =>
    have hc : Name.isStart c = true := h
    have hpart := Name.isPart_of_isInner (Name.isInner_of_isStart hc)
    have hdot : (c == '.') = false := by
      rw [beq_eq_false_iff_ne]
      rintro rfl
      cases hc
    rw [nameRun, List.takeWhile_cons_of_pos hpart, List.reverse_cons, List.dropWhile_append]
    split
    · rw [List.dropWhile_cons_of_neg (by simp [hdot])]
      exact hc
    · rw [List.reverse_append]
      exact hc

/-- Behind a colon there is text, or a name as far as it goes. -/
theorem cases_of_readColon (s : List Char) :
    (∃ decoded, (readColon s).lexeme = .text decoded) ∨
      ∃ name rest, readColon s = ⟨.bind (String.ofList name) false, name, rest⟩ ∧
        name.head?.any Name.isStart = true ∧ nameRun (name ++ rest) = name := by
  unfold readColon
  split
  · exact .inl ⟨_, rfl⟩
  · next c s _ =>
    split
    · next hstart =>
      refine .inr ⟨_, _, rfl, head?_nameRun hstart, ?_⟩
      rw [nameRun_append_drop]
    · exact .inl ⟨_, rfl⟩
  · exact .inl ⟨_, rfl⟩

/-- Behind a slash there is text, or a comment that is a directive. -/
theorem cases_of_readSlash {r : Reading} (h : readSlash position s = .ok r) :
    (∃ decoded, r.lexeme = .text decoded) ∨
      ∃ content behind d, Directive.IsContent content d ∧
        ofDirective position content behind d = .ok r := by
  unfold readSlash at h
  split at h
  · split at h
    · cases h
    · next s _ content behind hcut =>
      split at h
      · next hdirective =>
        split at h
        · cases h
        · next d hread =>
          have hclosed := Text.cutComment?_front hcut []
          exact .inr ⟨content, behind, d, ⟨hdirective, hclosed, hread⟩, h⟩
      · cases h
        exact .inl ⟨_, rfl⟩
  · cases h
    exact .inl ⟨_, rfl⟩

/-- A directive is written as the token that it becomes. -/
theorem written_of_ofDirective {content behind : List Char} {d : Directive}
    (hcontent : Directive.IsContent content d)
    (h : ofDirective position content behind d = .ok ⟨lexeme, taken, rest⟩)
    {nesting next : Token.Nesting} {kind : TokenKind}
    (haccept : Token.accept nesting position lexeme = .ok (kind, next)) :
    kind.Written ('/' :: taken) rest := by
  cases d with
  | bind name =>
    obtain ⟨dummy, hdummy, heq⟩ := exists_of_map_eq_ok h
    cases heq
    cases haccept
    rw [← Dummy.append_of_read hdummy] at hdummy
    exact .bind hcontent hdummy
  | embedded name quoted =>
    obtain ⟨dummy, hdummy, heq⟩ := exists_of_map_eq_ok h
    cases heq
    cases haccept
    rw [← Dummy.append_of_read hdummy] at hdummy
    exact .embedded hcontent hdummy
  | elseIf | otherwise =>
    cases h
    obtain ⟨-, -, heq⟩ := exists_of_map_eq_ok haccept
    cases heq
    exact .mark hcontent List.mem_cons_self
  | close =>
    cases h
    refine .mark hcontent ?_
    simp only [Token.accept] at haccept
    split at haccept <;> cases haccept <;> simp [Directive.marks]
  | ifThen | beginBlock =>
    cases h
    cases haccept
    exact .mark hcontent List.mem_cons_self

/-- A lexeme is text, a name behind a colon, or a comment that is a directive. -/
theorem cases_of_read {r : Reading} (h : read position c s = .ok r) :
    (∃ decoded, r.lexeme = .text decoded) ∨
      (c = ':' ∧ ∃ name rest, r = ⟨.bind (String.ofList name) false, name, rest⟩ ∧
        name.head?.any Name.isStart = true ∧ nameRun (name ++ rest) = name) ∨
      (c = '/' ∧ ∃ content behind d, Directive.IsContent content d ∧
        ofDirective position content behind d = .ok r) := by
  unfold read at h
  split at h
  · exact .inl (Except.ok.inj h ▸ text_of_readEscape s)
  · split at h
    · exact .inl (text_of_readLiteral h)
    · split at h
      · exact .inl (Except.ok.inj h ▸ text_of_readHyphen s)
      · split at h
        · next hc => exact (cases_of_readSlash h).imp_right fun hcomment => .inr ⟨hc, hcomment⟩
        · split at h
          · next hc =>
            rw [← Except.ok.inj h]
            exact (cases_of_readColon s).imp_right fun hname => .inl ⟨hc, hname⟩
          · cases h
            exact .inl ⟨[c], rfl⟩

/-- A lexeme that is no text is written as the token that it becomes. -/
theorem written_of_read {nesting next : Token.Nesting} {kind : TokenKind}
    (h : read position c s = .ok ⟨lexeme, taken, rest⟩)
    (htext : ∀ decoded, lexeme ≠ .text decoded)
    (haccept : Token.accept nesting position lexeme = .ok (kind, next)) :
    kind.Written (c :: taken) rest := by
  rcases cases_of_read h with ⟨decoded, hlexeme⟩ | ⟨rfl, name, behind, hread, hstart, hrun⟩ |
    ⟨rfl, content, behind, d, hcontent, hread⟩
  · exact absurd hlexeme (htext decoded)
  · cases hread
    cases haccept
    exact .sigil hstart hrun
  · exact written_of_ofDirective hcontent hread haccept

end Lexeme

/-! ## Scans -/

namespace Token

/-- What is pending was read from a slice behind the part `front` of the source, and `s` is left. -/
structure Pending.Holds (pending : Pending) (front slice s : List Char) : Prop where
  decodes : Decodes slice pending.text.toList s
  place : slice ≠ [] → pending.position = Position.start.after front

namespace Pending.Holds

variable {pending : Pending} {front slice s : List Char}

theorem none (front s : List Char) : Pending.none.Holds front [] s :=
  ⟨.nil s, fun hne => absurd rfl hne⟩

theorem text_eq_iff (h : pending.Holds front slice s) : pending.text = "" ↔ slice = [] := by
  rw [← h.decodes.content_eq_nil_iff, String.toList_eq_nil_iff]

/-- A lexeme of text joins what is pending, and its slice joins that slice. -/
theorem push {c : Char} {decoded taken rest : List Char}
    (h : pending.Holds front slice (c :: s))
    (hread : Lexeme.read (Position.start.after (front ++ slice)) c s =
      .ok ⟨.text decoded, taken, rest⟩) :
    (pending.push (Position.start.after (front ++ slice)) decoded).Holds front
      (slice ++ c :: taken) rest := by
  have hlexeme := Lexeme.decodes_of_read hread
  have hsource : c :: s = (c :: taken) ++ rest := by
    rw [List.cons_append, Lexeme.append_of_read hread]
  constructor
  · rw [push_text, String.toList_append, String.toList_ofList]
    exact (hsource ▸ h.decodes).append hlexeme
  · intro _
    show (if pending.text.isEmpty then _ else _) = _
    split
    · next hempty =>
      rw [h.text_eq_iff.1 (String.isEmpty_iff.1 hempty), List.append_nil]
    · next hne =>
      exact h.place fun hslice => hne (String.isEmpty_iff.2 (h.text_eq_iff.2 hslice))

/-- What is pending, if anything is, becomes a token for its slice. -/
theorem tokens_eq (h : pending.Holds front slice s) (hslice : slice ≠ []) :
    pending.tokens = [⟨.text pending.text, Position.start.after front⟩] ∧
      (TokenKind.text pending.text).Written slice s := by
  constructor
  · rw [tokens, if_neg, h.place hslice]
    rw [String.isEmpty_iff, h.text_eq_iff]
    exact hslice
  · have hcontent := TokenKind.Written.text h.decodes
    rwa [String.ofList_toList] at hcontent

theorem sliced (h : pending.Holds front slice s) {more : List Token}
    (hmore : Sliced (front ++ slice) more s) :
    Sliced front (pending.tokens ++ more) (slice ++ s) := by
  by_cases hslice : slice = []
  · rw [tokens_of_empty (h.text_eq_iff.2 hslice), hslice]
    rwa [hslice, List.append_nil] at hmore
  · obtain ⟨htokens, hwritten⟩ := h.tokens_eq hslice
    rw [htokens]
    exact .cons hslice rfl (Position.offset_start front) hwritten hmore

end Pending.Holds

/-- The tokens of a scan that does not fail stand for what was left of the source, and for the slice
that the pending text was read from. -/
theorem scanFrom_sliced {nesting : Nesting} {pending : Pending} {position : Position}
    {front slice s : List Char} (hposition : position = Position.start.after (front ++ slice))
    (h : pending.Holds front slice s)
    (hends : (scanFrom nesting pending position s).failure = none) :
    Sliced front (scanFrom nesting pending position s).tokens (slice ++ s) := by
  fun_induction scanFrom nesting pending position s generalizing front slice with
  | case1 pending position =>
    have hend := h.sliced .nil
    rwa [List.append_nil] at hend
  | case2 pending position opened start outer => cases hends
  | case3 nesting pending position c s e hread => cases hends
  | case4 nesting pending position c s decoded taken rest hread ih =>
    -- the lexeme joins what is pending, and what it took joins the slice of that
    subst hposition
    have hplace : (Position.start.after (front ++ slice)).after (c :: taken) =
        Position.start.after (front ++ (slice ++ c :: taken)) := by
      rw [← Position.after_append, List.append_assoc]
    have hnext := ih hplace (h.push hread) hends
    rwa [List.append_assoc, List.cons_append, Lexeme.append_of_read hread] at hnext
  | case5 nesting pending position c s lexeme taken rest hnot hread e haccept => cases hends
  | case6 nesting pending position c s lexeme taken rest hnot hread kind next haccept ih =>
    -- what is pending ends here, and behind the lexeme nothing is pending
    subst hposition
    have hplace : (Position.start.after (front ++ slice)).after (c :: taken) =
        Position.start.after (front ++ slice ++ c :: taken ++ []) := by
      rw [← Position.after_append, List.append_nil]
    have hoffset := Position.offset_start (front ++ slice)
    have hwritten := Lexeme.written_of_read hread hnot haccept
    have hinner := ih hplace (.none _ rest) hends
    rw [List.nil_append] at hinner
    have htoken : Sliced (front ++ slice) (⟨kind, Position.start.after (front ++ slice)⟩ :: _)
        (c :: taken ++ rest) := .cons (List.cons_ne_nil c taken) rfl hoffset hwritten hinner
    rw [List.cons_append, Lexeme.append_of_read hread] at htoken
    have hall := h.sliced htoken
    rwa [Scan.prepend, List.append_assoc, List.singleton_append]

/-- In a scan no text meets another one. -/
def Apart (token next : Token) : Prop := ¬ (token.kind.isText = true ∧ next.kind.isText = true)

theorem scanFrom_isChain (nesting : Nesting) (pending : Pending) (position : Position)
    (s : List Char) : (scanFrom nesting pending position s).tokens.IsChain Apart := by
  have hpending (pending : Pending) : pending.tokens.IsChain Apart := by
    unfold Pending.tokens
    split
    · exact .nil
    · exact .singleton _
  fun_induction scanFrom nesting pending position s with
  | case1 pending position => exact hpending pending
  | case2 | case3 | case5 => exact .nil
  | case4 nesting pending position c s decoded taken rest hread ih => exact ih
  | case6 nesting pending position c s lexeme taken rest hnot hread kind next haccept ih =>
    have hkind : kind.isText = false := by
      cases kind with
      | text content => exact absurd rfl (kind_ne_text haccept hnot content)
      | _ => rfl
    have hfirst (token : Token) : Apart token ⟨kind, position⟩ := fun h =>
      Bool.false_ne_true (hkind.symm.trans h.2)
    have hsecond (token : Token) : Apart ⟨kind, position⟩ token := fun h =>
      Bool.false_ne_true (hkind.symm.trans h.1)
    rw [Scan.prepend, List.append_assoc, List.singleton_append, List.isChain_append]
    refine ⟨hpending pending, List.isChain_cons.2 ⟨fun token _ => hsecond token, ih⟩, ?_⟩
    rintro token _ _ ⟨⟩
    exact hfirst token

end Token

/-! ## Sources that stand for themselves -/

/-- What is no text starts with the start of a directive or the sign of a name. -/
theorem TokenKind.Written.exists_atom {kind : TokenKind} {slice rest : List Char}
    (h : kind.Written slice rest) (hkind : kind.isText = false) :
    ∃ atom ∈ atoms .live (slice ++ rest), atom.meaning? = none := by
  have ofComment {content : List Char} {d : Directive} (hcontent : Directive.IsContent content d)
      (behind : List Char) :
      ∃ atom ∈ atoms .live (Text.comment content ++ behind), atom.meaning? = none := by
    refine ⟨.directive, ?_, rfl⟩
    have hstart : Directive.isDirective (content ++ '*' :: '/' :: behind) = true := by
      rw [Directive.isDirective_append, hcontent.starts]
    have hatoms : atoms .live ('/' :: '*' :: (content ++ '*' :: '/' :: behind)) =
        .directive :: atoms .blockComment (content ++ '*' :: '/' :: behind) := by
      rw [atoms, if_pos hstart]
    have hsource : Text.comment content ++ behind =
        '/' :: '*' :: (content ++ '*' :: '/' :: behind) := by
      simp [Text.comment]
    rw [hsource, hatoms]
    exact List.mem_cons_self
  cases h with
  | text decodes => cases hkind
  | @sigil name rest starts run =>
    refine ⟨.sigil, ?_, rfl⟩
    cases name with
    | nil => cases starts
    | cons c name =>
      have hc : c ≠ ':' := by
        rintro rfl
        cases starts
      have hstart : (c :: (name ++ rest)).head?.any Name.isStart = true := starts
      have hatoms : atoms .live (':' :: (c :: name ++ rest)) =
          .sigil :: atoms .live (c :: name ++ rest) := by
        rw [List.cons_append, atoms]
        · rw [if_pos hstart]
        · rintro s heq
          exact hc (List.cons.inj heq).1
      show _ ∈ atoms .live (':' :: (c :: name ++ rest))
      rw [hatoms]
      exact List.mem_cons_self
  | bind comment skipped | embedded comment skipped =>
    rw [List.append_assoc]
    exact ofComment comment _
  | mark comment mark => exact ofComment comment _

theorem TokenKind.Written.decodes {content : String} {slice rest : List Char}
    (h : (TokenKind.text content).Written slice rest) : Decodes slice content.toList rest := by
  generalize hkind : TokenKind.text content = kind at h
  cases h with
  | text decodes =>
    cases hkind
    rwa [String.toList_ofList]
  | @mark _ _ d _ comment mark =>
    subst hkind
    cases d <;> simp [Directive.marks] at mark
  | _ => cases hkind

namespace Token

theorem Sliced.text_ne {front s : List Char} {tokens : List Token} (h : Sliced front tokens s) :
    ∀ token ∈ tokens, token.kind ≠ .text "" := by
  induction h with
  | nil => exact nofun
  | cons nonempty place offset written others ih =>
    refine List.forall_mem_cons.2 ⟨fun hempty => ?_, ih⟩
    rw [hempty] at written
    exact nonempty (written.decodes.content_eq_nil_iff.1 rfl)

/-- Where each character stands for itself, there is one token for all of the text. -/
theorem Sliced.of_kept {tokens : List Token} {s : List Char} (h : Sliced [] tokens s)
    (hapart : tokens.IsChain Apart) (hkept : ∀ atom ∈ atoms .live s, ∃ c, atom = .kept c) :
    tokens.map Token.kind = if s = [] then [] else [.text (String.ofList s)] := by
  have htext {kind : TokenKind} {slice rest : List Char} (hwritten : kind.Written slice rest)
      (hslice : ∀ atom ∈ atoms .live (slice ++ rest), ∃ c, atom = .kept c) :
      kind.isText = true := by
    by_contra hkind
    obtain ⟨atom, hmem, hnone⟩ := hwritten.exists_atom (Bool.eq_false_iff.2 hkind)
    obtain ⟨c, rfl⟩ := hslice atom hmem
    cases hnone
  cases h with
  | nil => rfl
  | @cons _ slice rest token tokens nonempty place offset written others =>
    have htoken := htext written hkept
    obtain ⟨content, hcontent⟩ : ∃ content, token.kind = .text content := by
      cases hkind : token.kind with
      | text content => exact ⟨content, rfl⟩
      | _ =>
        rw [hkind] at htoken
        cases htoken
    rw [hcontent] at written
    have hdecodes := written.decodes
    rw [hdecodes.apart rest List.prefix_rfl] at hkept
    cases others with
    | nil =>
      have hslice := Region.atoms_eq_kept fun atom hmem => hkept atom (List.mem_append_left _ hmem)
      have hmeaning := hdecodes.meaning
      rw [hslice, Atom.map_meaning?_kept] at hmeaning
      have heq : slice = content.toList :=
        List.map_injective_iff.2 (fun _ _ => Option.some.inj) hmeaning
      rw [List.append_nil, if_neg nonempty, heq, String.ofList_toList]
      simp [hcontent]
    | @cons _ next rest second tokens _ _ _ written' _ =>
      -- a second token would be text as well, and would meet the first one
      have hsecond := htext written' fun atom hmem => hkept atom (List.mem_append_right _ hmem)
      exact absurd ⟨htoken, hsecond⟩ (List.isChain_cons_cons.1 hapart).1

theorem scan_of_ofSource {source : String} {tokens : List Token}
    (h : ofSource source = .ok tokens) : scan source = ⟨tokens, none⟩ := by
  unfold ofSource Scan.toExcept at h
  split at h
  · next hnone =>
    cases h
    rw [← hnone]
  · cases h

end Token

/-- A source whose only token is all of its text is rendered as it stands. -/
theorem Renderer.render_text {source : String} {tokens : List Token}
    (hscan : Token.scan source = ⟨tokens, none⟩)
    (hkinds : tokens.map Token.kind = if source.toList = [] then [] else [.text source])
    (r : Renderer) (name : Option String) (l : Lookup) :
    ∃ st, (r.render name source l).result = .ok st ∧ st.binds = [] ∧
      st.sql = if r.settings.clauseCleanup then Clause.clean source else source := by
  obtain ⟨nodes, htree, hnodes⟩ : ∃ nodes, Tree.ofSource source = .ok ⟨nodes⟩ ∧
      ((nodes = [] ∧ source = "") ∨ nodes = [.text source]) := by
    unfold Tree.ofSource
    rw [hscan]
    split at hkinds
    · next hempty =>
      rw [List.map_eq_nil_iff.1 hkinds]
      exact ⟨[], rfl, .inl ⟨rfl, String.toList_eq_nil_iff.1 hempty⟩⟩
    · obtain ⟨token, rfl, hkind⟩ := List.map_eq_singleton_iff.1 hkinds
      refine ⟨[.text source], ?_, .inr rfl⟩
      obtain ⟨kind, position⟩ := token
      cases hkind
      rfl
  have hrun : (r.render name source l).result =
      (Tree.meaning ⟨l, r.evaluator, r.mappers⟩ ⟨nodes⟩).map
        (Meaning.statement r.settings r.settings.coverage) := by
    rw [render, Template.parse_of_ofSource htree]
    exact r.result_eq _ _ _ l
  rw [hrun]
  rcases hnodes with ⟨rfl, rfl⟩ | rfl
  · exact ⟨_, rfl, rfl, rfl⟩
  · refine ⟨_, rfl, rfl, ?_⟩
    show (if r.settings.clauseCleanup then Clause.clean (source ++ "") else source ++ "") = _
    rw [String.append_empty]

namespace Token

/-- The tokens of a source account for all of it: they stand for consecutive slices of it, each
where it says, of which a text decodes to its content. No text is empty and no text meets another
one. A source without directives, names behind a colon and escapes is rendered as it stands. -/
theorem ofSource_accounts {source : String} {tokens : List Token}
    (h : ofSource source = .ok tokens) :
    Sliced [] tokens source.toList ∧
      (∀ token ∈ tokens, token.kind ≠ .text "") ∧
      tokens.IsChain Apart ∧
      ((∀ atom ∈ Region.live.atoms source.toList, ∃ c, atom = .kept c) →
        ∀ (r : Renderer) (name : Option String) (l : Lookup),
          ∃ st, (r.render name source l).result = .ok st ∧ st.binds = [] ∧
            st.sql = if r.settings.clauseCleanup then Clause.clean source else source) := by
  have hscan := scan_of_ofSource h
  have hends : (scan source).failure = none := congrArg Scan.failure hscan
  have hsliced := scanFrom_sliced rfl (.none [] source.toList) hends
  have hapart := scanFrom_isChain [] .none .start source.toList
  change Sliced [] (scan source).tokens source.toList at hsliced
  change (scan source).tokens.IsChain Apart at hapart
  rw [hscan] at hsliced hapart
  refine ⟨hsliced, hsliced.text_ne, hapart, fun hkept r name l => ?_⟩
  have hkinds := hsliced.of_kept hapart hkept
  rw [String.ofList_toList] at hkinds
  exact r.render_text hscan hkinds name l

/-- A source with every kind of slice, and one whose only atoms are kept characters. -/
theorem ofSource_accounts_words :
    let source := "é '\\:' \\:x b::y\n= :a.b./*c*/(1, ')')/*IF x*/ -- it's\n/*END*/"
    let tokens : List Token :=
      [⟨.text "é '\\:' :x b::y\n= ", ⟨0, 1, 1⟩⟩, ⟨.bind "a.b" false, ⟨19, 2, 3⟩⟩,
        ⟨.text ".", ⟨23, 2, 7⟩⟩, ⟨.bind "c" true, ⟨24, 2, 8⟩⟩, ⟨.ifThen "x", ⟨37, 2, 21⟩⟩,
        ⟨.text " -- it's\n", ⟨45, 2, 29⟩⟩, ⟨.endIf, ⟨54, 3, 1⟩⟩]
    let words := "SELECT ':a' /* :b */ FROM t::x -- it's"
    ofSource source = .ok tokens ∧ Sliced [] tokens source.toList ∧
      ofSource words = .ok [⟨.text words, .start⟩] ∧
      (∀ atom ∈ Region.live.atoms words.toList, ∃ c, atom = .kept c) ∧
      ∃ st, (Renderer.stock.render none words Parameters.empty.lookup).result = .ok st ∧
        st.sql = words := by
  intro source tokens words
  have hsource : ofSource source = .ok tokens := by decide +kernel
  have hwords : ofSource words = .ok [⟨.text words, .start⟩] := by decide +kernel
  have hatoms : Region.live.atoms words.toList = words.toList.map .kept := by decide +kernel
  have hkept : ∀ atom ∈ Region.live.atoms words.toList, ∃ c, atom = .kept c := by
    intro atom hmem
    rw [hatoms] at hmem
    obtain ⟨c, -, rfl⟩ := List.mem_map.1 hmem
    exact ⟨c, rfl⟩
  obtain ⟨-, -, -, hrender⟩ := ofSource_accounts hwords
  obtain ⟨st, hresult, -, hsql⟩ := hrender hkept Renderer.stock none Parameters.empty.lookup
  exact ⟨hsource, (ofSource_accounts hsource).1, hwords, hkept, st, hresult, hsql⟩

end Token

end TwoWaySql
