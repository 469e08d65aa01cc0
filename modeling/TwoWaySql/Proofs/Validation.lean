import Mathlib.Data.List.Induction
import TwoWaySql.Proofs.Nesting

/-!
# Two checks of the nesting

The scan and the builder both refuse directives that are not well nested, each with a stack of its
own: the scan keeps what is open and whether its `ELSE` has come (`Token.Nesting`), the builder
keeps half-built chains and blocks (`Tree.Frame`). This file

1. says what a token does to the open directives of a scan (`Token.Leads`), and that the tokens of
   a scan lead to what is open where it ends (`Token.scanFrom_leads`);
2. reads the open directives off a tree under construction (`State.nesting`) and shows that a token
   does the same to them, as long as there is room (`Tree.push_of_leads`);
3. counts what a row of tokens leaves open (`Token.depth`);
4. concludes that the builder adds nothing to the scan but the limit (`Tree.checks_agree`);
5. shows that the limit holds for every tree that is built (`Tree.depth_le_of_ofItems`).
-/

namespace TwoWaySql

open Token (Opened Nesting)

/-! ## The open directives of a scan -/

namespace Token

/-- The token leads from the open directives in front of it to those behind it. -/
inductive Leads : Nesting → Token → Nesting → Prop
  | text (around : Nesting) (content : String) (position : Position) :
    Leads around ⟨.text content, position⟩ around
  | bind (around : Nesting) (name : String) (paren : Bool) (position : Position) :
    Leads around ⟨.bind name paren, position⟩ around
  | embedded (around : Nesting) (name : String) (quoted : Bool) (position : Position) :
    Leads around ⟨.embedded name quoted, position⟩ around
  | ifThen (around : Nesting) (condition : String) (position : Position) :
    Leads around ⟨.ifThen condition, position⟩ ((.chain false, position) :: around)
  | elseIf (outer : Nesting) (condition : String) (start position : Position) :
    Leads ((.chain false, start) :: outer) ⟨.elseIf condition, position⟩
      ((.chain false, start) :: outer)
  | otherwise (outer : Nesting) (start position : Position) :
    Leads ((.chain false, start) :: outer) ⟨.otherwise, position⟩ ((.chain true, start) :: outer)
  | endIf (outer : Nesting) (afterElse : Bool) (start position : Position) :
    Leads ((.chain afterElse, start) :: outer) ⟨.endIf, position⟩ outer
  | beginBlock (around : Nesting) (position : Position) :
    Leads around ⟨.beginBlock, position⟩ ((.block, position) :: around)
  | endBlock (outer : Nesting) (start position : Position) :
    Leads ((.block, start) :: outer) ⟨.endBlock, position⟩ outer

/-- A row of tokens leads from the open directives in front of it to those behind it. -/
inductive LeadsAll : Nesting → List Token → Nesting → Prop
  | nil (around : Nesting) : LeadsAll around [] around
  | cons {around inner last : Nesting} {token : Token} {rest : List Token}
    (first : Leads around token inner) (more : LeadsAll inner rest last) :
    LeadsAll around (token :: rest) last

theorem checkAlternate_ok {nesting : Nesting} {position : Position} {word : String}
    (h : checkAlternate nesting position word = .ok ()) :
    ∃ start outer, nesting = (.chain false, start) :: outer := by
  unfold checkAlternate at h
  split at h
  · exact ⟨_, _, rfl⟩
  all_goals cases h

theorem leads_of_accept {nesting next : Nesting} {position : Position} {lexeme : Lexeme}
    {kind : TokenKind} (h : accept nesting position lexeme = .ok (kind, next)) :
    Leads nesting ⟨kind, position⟩ next := by
  cases lexeme with
  | text decoded => cases h; exact .text nesting _ position
  | bind name paren => cases h; exact .bind nesting name paren position
  | embedded name quoted => cases h; exact .embedded nesting name quoted position
  | ifThen condition => cases h; exact .ifThen nesting condition position
  | elseIf word condition =>
    simp only [accept] at h
    cases hc : checkAlternate nesting position word with
    | error e => rw [hc] at h; cases h
    | ok =>
      obtain ⟨start, outer, rfl⟩ := checkAlternate_ok hc
      rw [hc] at h
      cases h
      exact .elseIf outer condition start position
  | otherwise =>
    simp only [accept] at h
    cases hc : checkAlternate nesting position "ELSE" with
    | error e => rw [hc] at h; cases h
    | ok =>
      obtain ⟨start, outer, rfl⟩ := checkAlternate_ok hc
      rw [hc] at h
      cases h
      exact .otherwise outer start position
  | beginBlock => cases h; exact .beginBlock nesting position
  | close =>
    simp only [accept] at h
    split at h
    · cases h; exact .endIf ..
    · cases h; exact .endBlock ..
    · cases h

/-! ## Where a scan ends -/

/-- A fault of the notation, and not of the nesting. -/
def IsSyntax (e : Error) : Prop := ∃ position fault, e = .parse position fault

theorem IsSyntax.of_error {α : Type} {position : Position} {fault : SyntaxFault} {e : Error}
    (h : (.error (.parse position fault) : Except Error α) = .error e) : IsSyntax e :=
  ⟨position, fault, (Except.error.inj h).symm⟩

theorem IsSyntax.of_dummy {position : Position} {s : List Char} {e : Error}
    (h : Dummy.read position s = .error e) : IsSyntax e := by
  unfold Dummy.read at h
  split at h
  · split at h
    · cases h
    · exact .of_error h
  · split at h
    · cases h
    · exact .of_error h
    · exact .of_error h
  · cases h

theorem IsSyntax.of_ofDirective {position : Position} {content s : List Char} {d : Directive}
    {e : Error} (h : Lexeme.ofDirective position content s d = .error e) : IsSyntax e := by
  have ofDummy {make : Dummy → Lexeme.Reading} {position : Position}
      (hd : (Dummy.read position s).map make = .error e) : IsSyntax e := by
    cases hr : Dummy.read position s with
    | error fault =>
      rw [hr] at hd
      cases hd
      exact .of_dummy hr
    | ok dummy =>
      rw [hr] at hd
      cases hd
  cases d with
  | bind name => exact ofDummy h
  | embedded name quoted => exact ofDummy h
  | _ => cases h

theorem IsSyntax.of_readSlash {position : Position} {s : List Char} {e : Error}
    (h : Lexeme.readSlash position s = .error e) : IsSyntax e := by
  unfold Lexeme.readSlash at h
  split at h
  · split at h
    · exact .of_error h
    · split at h
      · split at h
        · exact .of_error h
        · exact .of_ofDirective h
      · cases h
  · cases h

/-- A lexeme that cannot be read is badly written, wherever it stands. -/
theorem IsSyntax.of_read {position : Position} {c : Char} {s : List Char} {e : Error}
    (h : Lexeme.read position c s = .error e) : IsSyntax e := by
  unfold Lexeme.read at h
  repeat' split at h
  · cases h
  · unfold Lexeme.readLiteral at h
    split at h
    · cases h
    · exact .of_error h
  · cases h
  · exact .of_readSlash h
  · cases h
  · cases h

/-- What is open where a scan ends: nothing behind a complete one, and where directives are left
open, the innermost of them is the one that is reported. -/
def EndsIn (last : Nesting) : Option Error → Prop
  | none => last = []
  | some (.structural start (.unterminated word)) =>
    ∃ opened outer, last = (opened, start) :: outer ∧ word = opened.word
  | some _ => True

theorem EndsIn.of_isSyntax {e : Error} (h : IsSyntax e) (last : Nesting) :
    EndsIn last (some e) := by
  obtain ⟨position, fault, rfl⟩ := h
  exact trivial

theorem EndsIn.of_checkAlternate {nesting : Nesting} {position : Position} {word : String}
    {e : Error} (h : checkAlternate nesting position word = .error e) (last : Nesting) :
    EndsIn last (some e) := by
  unfold checkAlternate at h
  split at h
  · cases h
  all_goals
    cases h
    exact trivial

theorem EndsIn.of_accept {nesting : Nesting} {position : Position} {lexeme : Lexeme} {e : Error}
    (h : accept nesting position lexeme = .error e) (last : Nesting) : EndsIn last (some e) := by
  have ofAlternate {word : String} {make : Unit → TokenKind × Nesting}
      (ha : (checkAlternate nesting position word).map make = .error e) : EndsIn last (some e) := by
    cases hc : checkAlternate nesting position word with
    | error fault =>
      rw [hc] at ha
      cases ha
      exact .of_checkAlternate hc last
    | ok =>
      rw [hc] at ha
      cases ha
  cases lexeme with
  | elseIf word condition => exact ofAlternate h
  | otherwise => exact ofAlternate h
  | close =>
    simp only [accept] at h
    split at h
    · cases h
    · cases h
    · cases h
      exact trivial
  | _ => cases h

theorem LeadsAll.append {around inner last : Nesting} {tokens more : List Token}
    (h : LeadsAll around tokens inner) (hmore : LeadsAll inner more last) :
    LeadsAll around (tokens ++ more) last := by
  induction h with
  | nil => exact hmore
  | cons first _ ih => exact .cons first (ih hmore)

theorem LeadsAll.pending (around : Nesting) (pending : Pending) :
    LeadsAll around pending.tokens around := by
  unfold Pending.tokens
  split
  · exact .nil around
  · exact .cons (.text around pending.text pending.position) (.nil around)

/-- The tokens of a scan lead to what is open where it ends. -/
theorem scanFrom_leads (nesting : Nesting) (pending : Pending) (position : Position)
    (s : List Char) :
    ∃ last, LeadsAll nesting (scanFrom nesting pending position s).tokens last ∧
      EndsIn last (scanFrom nesting pending position s).failure := by
  fun_induction scanFrom nesting pending position s with
  | case1 pending position => exact ⟨[], .pending [] pending, rfl⟩
  | case2 pending position opened start outer =>
    exact ⟨(opened, start) :: outer, .nil _, opened, outer, rfl, rfl⟩
  | case3 nesting pending position c s e h =>
    exact ⟨nesting, .nil nesting, .of_isSyntax (.of_read h) nesting⟩
  | case4 nesting pending position c s decoded taken rest h ih => exact ih
  | case5 nesting pending position c s lexeme taken rest hnot h e he =>
    exact ⟨nesting, .nil nesting, .of_accept he nesting⟩
  | case6 nesting pending position c s lexeme taken rest hnot h kind next ha ih =>
    obtain ⟨last, hleads, hends⟩ := ih
    have htoken : LeadsAll nesting (pending.tokens ++ [⟨kind, position⟩]) next :=
      (LeadsAll.pending nesting pending).append (.cons (leads_of_accept ha) (.nil next))
    exact ⟨last, htoken.append hleads, hends⟩

theorem scan_leads (source : String) :
    ∃ last, LeadsAll [] (scan source).tokens last ∧ EndsIn last (scan source).failure :=
  scanFrom_leads [] .none .start source.toList

end Token

/-! ## The open directives of a tree under construction -/

namespace Tree

open State (closeChain)

/-- Where a chain starts: at the first of its branches, which are given latest first. -/
def chainStart (earlier : List ClosedBranch) (position : Position) : Position :=
  (earlier.getLast?.map ClosedBranch.position).getD position

/-- The open directive that a frame stands for. -/
def Frame.opened : Frame → Opened × Position
  | .branch earlier _ position _ => (.chain false, chainStart earlier position)
  | .otherwise latest earlier _ _ => (.chain true, chainStart earlier latest.position)
  | .block position _ => (.block, position)

/-- The open directives of a tree under construction, innermost first. -/
def State.nesting (s : State) : Nesting := s.frames.map Frame.opened

theorem chainStart_cons (latest : ClosedBranch) (earlier : List ClosedBranch)
    (position : Position) :
    chainStart (latest :: earlier) position = chainStart earlier latest.position := by
  cases earlier with
  | nil => rfl
  | cons before earlier => simp [chainStart, List.getLast?_cons]

theorem State.nesting_cons {s : State} {opened : Opened × Position} {outer : Nesting}
    (h : s.nesting = opened :: outer) :
    ∃ frame frames, s.frames = frame :: frames ∧ frame.opened = opened ∧
      frames.map Frame.opened = outer := by
  obtain ⟨frame, frames, hs, hframe, houter⟩ := List.map_eq_cons_iff.1 h
  exact ⟨frame, frames, hs, hframe, houter⟩

/-- A frame that takes a further alternative. -/
theorem Frame.opened_chain {frame : Frame} {start : Position}
    (h : frame.opened = (.chain false, start)) :
    ∃ earlier condition position around, frame = .branch earlier condition position around ∧
      chainStart earlier position = start := by
  cases frame with
  | branch earlier condition position around =>
    exact ⟨earlier, condition, position, around, rfl, congrArg Prod.snd h⟩
  | otherwise latest earlier position around => cases congrArg Prod.fst h
  | block position around => cases congrArg Prod.fst h

end Tree

/-- Whether a token opens a directive that has to be closed. -/
def TokenKind.opens : TokenKind → Bool
  | .ifThen _ | .beginBlock => true
  | _ => false

/-- Whether a token closes a directive. -/
def TokenKind.closes : TokenKind → Bool
  | .endIf | .endBlock => true
  | _ => false

namespace Tree

/-- A token that the scan accepts is pushed, if it opens no directive beyond the limit, and then the
tree under construction has the same directives open as the scan. -/
theorem push_of_leads {s : State} {token : Token} {next : Nesting}
    (h : Token.Leads s.nesting token next)
    (room : token.kind.opens = true → s.frames.length < maxNesting) :
    ∃ s', Pushed s token s' ∧ s'.nesting = next := by
  obtain ⟨nodes, frames⟩ := s
  generalize ha : State.nesting ⟨nodes, frames⟩ = around at h
  cases h with
  | text _ content position => exact ⟨_, .text _ content position, ha⟩
  | bind _ name paren position => exact ⟨_, .bind _ name paren position, ha⟩
  | embedded _ name quoted position => exact ⟨_, .embedded _ name quoted position, ha⟩
  | ifThen _ condition position =>
    refine ⟨_, .ifThen _ condition position (room rfl), ?_⟩
    rw [← ha]
    rfl
  | beginBlock _ position =>
    refine ⟨_, .beginBlock _ position (room rfl), ?_⟩
    rw [← ha]
    rfl
  | elseIf outer condition start position =>
    obtain ⟨frame, inner, rfl, hframe, rfl⟩ := State.nesting_cons ha
    obtain ⟨earlier, before, place, around, rfl, rfl⟩ := Frame.opened_chain hframe
    refine ⟨_, .elseIf nodes around earlier before condition place position inner, ?_⟩
    simp [State.nesting, Frame.opened, chainStart_cons]
  | otherwise outer start position =>
    obtain ⟨frame, inner, rfl, hframe, rfl⟩ := State.nesting_cons ha
    obtain ⟨earlier, before, place, around, rfl, rfl⟩ := Frame.opened_chain hframe
    exact ⟨_, .otherwise nodes around earlier before place position inner, rfl⟩
  | endIf outer afterElse start position =>
    obtain ⟨frame, inner, rfl, hframe, rfl⟩ := State.nesting_cons ha
    cases frame with
    | branch earlier condition place around =>
      exact ⟨_, .endBranch nodes around earlier condition place position inner, rfl⟩
    | otherwise latest earlier place around =>
      exact ⟨_, .endOtherwise nodes around latest earlier place position inner, rfl⟩
    | block place around => cases congrArg Prod.fst hframe
  | endBlock outer start position =>
    obtain ⟨frame, inner, rfl, hframe, rfl⟩ := State.nesting_cons ha
    cases frame with
    | block place around => exact ⟨_, .endBlock nodes around place position inner, rfl⟩
    | _ => cases congrArg Prod.fst hframe

/-- A token that opens a directive beyond the limit is refused. -/
theorem push_tooDeep {s : State} {token : Token} (h : token.kind.opens = true)
    (full : maxNesting ≤ s.frames.length) :
    s.push token = .error (.structural token.position (.tooDeep maxNesting)) := by
  obtain ⟨kind, position⟩ := token
  have hroom : ¬ s.frames.length < maxNesting := Nat.not_lt.2 full
  cases kind with
  | ifThen condition => exact if_neg hroom
  | beginBlock => exact if_neg hroom
  | _ => cases h

/-- A tree under construction is finished if nothing is open, and otherwise the innermost open
directive is reported. -/
theorem finish_eq (s : State) :
    s.finish = match s.nesting with
      | [] => .ok ⟨s.nodes.reverse⟩
      | (opened, start) :: _ => .error (.structural start (.unterminated opened.word)) := by
  obtain ⟨nodes, frames⟩ := s
  cases frames with
  | nil => rfl
  | cons frame outer => cases frame <;> rfl

end Tree

/-! ## How deep a row of tokens goes -/

namespace Token

/-- How many directives a row of tokens leaves open. -/
def depth (tokens : List Token) : Nat :=
  tokens.countP (·.kind.opens) - tokens.countP (·.kind.closes)

/-- No more than `limit` directives are open anywhere in the row. -/
def Within (limit : Nat) (tokens : List Token) : Prop :=
  ∀ part, part <+: tokens → depth part ≤ limit

/-- The token is the first one of the row behind which more than `limit` directives are open. -/
def FirstBeyond (limit : Nat) (tokens : List Token) (token : Token) : Prop :=
  ∃ before after, tokens = before ++ token :: after ∧ Within limit before ∧
    limit < depth (before ++ [token])

theorem within_or_firstBeyond (limit : Nat) (tokens : List Token) :
    Within limit tokens ∨ ∃ token, FirstBeyond limit tokens token := by
  induction tokens using List.reverseRecOn with
  | nil =>
    left
    intro part hpart
    rw [List.prefix_nil.1 hpart]
    exact Nat.zero_le limit
  | append_singleton before token ih =>
    rcases ih with hbefore | ⟨first, front, after, rfl, hfront, hdepth⟩
    · by_cases hd : limit < depth (before ++ [token])
      · exact .inr ⟨token, before, [], rfl, hbefore, hd⟩
      · left
        intro part hpart
        rcases List.prefix_concat_iff.1 hpart with rfl | hpart
        · exact Nat.not_lt.1 hd
        · exact hbefore part hpart
    · right
      refine ⟨first, front, after ++ [token], ?_, hfront, hdepth⟩
      rw [List.append_assoc, List.cons_append]

/-- The first token beyond the limit opens a directive. -/
theorem FirstBeyond.opens {limit : Nat} {tokens : List Token} {token : Token}
    (h : FirstBeyond limit tokens token) : token.kind.opens = true := by
  obtain ⟨before, after, -, hwithin, hdepth⟩ := h
  have hlimit := hwithin before (List.prefix_refl before)
  rw [depth] at hlimit
  rw [depth, List.countP_append, List.countP_append] at hdepth
  by_contra hopens
  rw [List.countP_singleton, if_neg hopens] at hdepth
  omega

theorem FirstBeyond.not_within {limit : Nat} {tokens : List Token} {token : Token}
    (h : FirstBeyond limit tokens token) : ¬ Within limit tokens := by
  obtain ⟨before, after, rfl, -, hdepth⟩ := h
  intro hwithin
  have hpart : before ++ [token] <+: before ++ token :: after := ⟨after, by simp⟩
  exact absurd hdepth (Nat.not_lt.2 (hwithin _ hpart))

theorem Leads.length {around next : Nesting} {token : Token} (h : Leads around token next) :
    next.length + [token].countP (·.kind.closes) =
      around.length + [token].countP (·.kind.opens) := by
  cases h <;> rfl

theorem LeadsAll.length {around last : Nesting} {tokens : List Token}
    (h : LeadsAll around tokens last) :
    last.length + tokens.countP (·.kind.closes) = around.length + tokens.countP (·.kind.opens) := by
  induction h with
  | nil around => rfl
  | @cons around inner last token rest first _ ih =>
    have hfirst := first.length
    rw [← List.singleton_append, List.countP_append, List.countP_append]
    omega

theorem LeadsAll.split {around last : Nesting} {tokens more : List Token}
    (h : LeadsAll around (tokens ++ more) last) :
    ∃ inner, LeadsAll around tokens inner ∧ LeadsAll inner more last := by
  induction tokens generalizing around with
  | nil => exact ⟨around, .nil around, h⟩
  | cons token rest ih =>
    obtain _ | ⟨first, hrest⟩ := h
    obtain ⟨inner, hfront, hmore⟩ := ih hrest
    exact ⟨inner, .cons first hfront, hmore⟩

end Token

/-! ## Both checks -/

namespace Tree

open Token (LeadsAll Within FirstBeyond)

theorem length_frames (s : State) : s.frames.length = s.nesting.length :=
  (List.length_map _).symm

/-- Tokens that the scan accepts are pushed, as long as there is room, and then the same directives
are open. -/
theorem pushAll_of_leads {around last : Nesting} {tokens : List Token}
    (h : LeadsAll around tokens last) {s : State} (hs : s.nesting = around)
    (room : ∀ part, part <+: tokens → s.frames.length + part.countP (·.kind.opens) ≤
      maxNesting + part.countP (·.kind.closes)) (more : List (Except Error Token)) :
    ∃ s' : State, s'.nesting = last ∧ s.pushAll (tokens.map .ok ++ more) = s'.pushAll more := by
  induction h generalizing s with
  | nil around => exact ⟨s, hs, rfl⟩
  | @cons around inner last token rest first _ ih =>
    have hfirst := first.length
    have hbelow := length_frames s
    rw [hs] at hbelow
    have hopen : token.kind.opens = true → s.frames.length < maxNesting := by
      intro ho
      have hone := room [token] (List.prefix_append [token] rest)
      have hc : token.kind.closes = false := by
        cases hk : token.kind <;> simp_all [TokenKind.opens, TokenKind.closes]
      simp only [List.countP_singleton, ho, hc] at hone
      simp at hone
      omega
    obtain ⟨next, hpushed, hnext⟩ := push_of_leads (hs ▸ first) hopen
    have habove := length_frames next
    rw [hnext] at habove
    have hrest : ∀ part, part <+: rest → next.frames.length + part.countP (·.kind.opens) ≤
        maxNesting + part.countP (·.kind.closes) := by
      intro part hpart
      have hall := room (token :: part) (List.cons_prefix_cons.2 ⟨rfl, hpart⟩)
      rw [← List.singleton_append, List.countP_append, List.countP_append] at hall
      omega
    obtain ⟨s', hlast, hpush⟩ := ih hnext hrest
    exact ⟨s', hlast, by rw [List.map_cons, List.cons_append, pushAll_cons hpushed, hpush]⟩

/-- Within the limit, the tokens of a scan are pushed. -/
theorem pushAll_of_within {tokens : List Token} {last : Nesting} (h : LeadsAll [] tokens last)
    (hwithin : Within maxNesting tokens) (more : List (Except Error Token)) :
    ∃ s : State, s.nesting = last ∧
      State.empty.pushAll (tokens.map .ok ++ more) = s.pushAll more := by
  refine pushAll_of_leads h rfl (fun part hpart => ?_) more
  have hdepth := hwithin part hpart
  rw [Token.depth] at hdepth
  show 0 + _ ≤ _
  omega

/-- The first token beyond the limit is refused, whatever follows it. -/
theorem pushAll_firstBeyond {tokens : List Token} {last : Nesting} (h : LeadsAll [] tokens last)
    {token : Token} (hfirst : FirstBeyond maxNesting tokens token)
    (more : List (Except Error Token)) :
    State.empty.pushAll (tokens.map .ok ++ more) =
      .error (.structural token.position (.tooDeep maxNesting)) := by
  have hopens := hfirst.opens
  obtain ⟨before, after, rfl, hwithin, hdepth⟩ := hfirst
  obtain ⟨inner, hbefore, hafter⟩ := h.split
  obtain ⟨s, hs, hpush⟩ := pushAll_of_within hbefore hwithin (.ok token :: (after.map .ok ++ more))
  have hframes := length_frames s
  have hcount := hbefore.length
  have hlimit := hwithin before (List.prefix_refl before)
  rw [hs] at hframes
  rw [Token.depth, List.countP_append, List.countP_append] at hdepth
  rw [Token.depth] at hlimit
  rw [List.length_nil] at hcount
  have hone : [token].countP (·.kind.opens) ≤ 1 := List.countP_le_length
  have hfull : maxNesting ≤ s.frames.length := by omega
  rw [List.map_append, List.map_cons, List.append_assoc, List.cons_append, hpush, State.pushAll,
    push_tooDeep hopens hfull]

theorem ofItems_of_within {tokens : List Token} {last : Nesting} (h : LeadsAll [] tokens last)
    (hwithin : Within maxNesting tokens) :
    ∃ s : State, s.nesting = last ∧ ofItems (tokens.map .ok) = s.finish := by
  obtain ⟨s, hs, hpush⟩ := pushAll_of_within h hwithin []
  rw [List.append_nil] at hpush
  refine ⟨s, hs, ?_⟩
  rw [ofItems, hpush]
  rfl

theorem ofItems_error {tokens : List Token} {last : Nesting} (h : LeadsAll [] tokens last)
    (hwithin : Within maxNesting tokens) (e : Error) :
    ofItems (tokens.map .ok ++ [.error e]) = .error e := by
  obtain ⟨s, hs, hpush⟩ := pushAll_of_within h hwithin [.error e]
  rw [ofItems, hpush]
  rfl

theorem ofItems_firstBeyond {tokens : List Token} {last : Nesting} (h : LeadsAll [] tokens last)
    {token : Token} (hfirst : FirstBeyond maxNesting tokens token)
    (more : List (Except Error Token)) :
    ofItems (tokens.map .ok ++ more) =
      .error (.structural token.position (.tooDeep maxNesting)) := by
  rw [ofItems, pushAll_firstBeyond h hfirst more]

/-- The builder and the scan agree on which directives are well nested, and the builder adds the
limit alone. A complete scan is built into a tree, or refused at the first token beyond the limit.
A scan that leaves directives open is refused by the builder for the same one. And a template is
refused at the first token beyond the limit if there is one, else for what stopped the scan. -/
theorem checks_agree (source : String) (name : Option String) :
    let scan := Token.scan source
    let tokens := scan.tokens
    (scan.failure = none →
      (Within maxNesting tokens ∧ ∃ t, ofItems (tokens.map .ok) = .ok t) ∨
        (¬ Within maxNesting tokens ∧ ∃ token, FirstBeyond maxNesting tokens token ∧
          ofItems (tokens.map .ok) =
            .error (.structural token.position (.tooDeep maxNesting)))) ∧
    (∀ start word, scan.failure = some (.structural start (.unterminated word)) →
      Within maxNesting tokens →
        ofItems (tokens.map .ok) = .error (.structural start (.unterminated word))) ∧
    (∀ token, FirstBeyond maxNesting tokens token →
      Template.parse name source = .error (.structural token.position (.tooDeep maxNesting))) ∧
    (Within maxNesting tokens →
      match scan.failure with
      | some e => Template.parse name source = .error e
      | none => ∃ t, Template.parse name source = .ok t) := by
  intro scan tokens
  obtain ⟨last, hleads, hends⟩ := Token.scan_leads source
  refine ⟨fun hcomplete => ?_, fun start word hopen hwithin => ?_, fun token hfirst => ?_,
    fun hwithin => ?_⟩
  · obtain rfl : last = [] := by
      rw [show (Token.scan source).failure = none from hcomplete] at hends
      exact hends
    rcases Token.within_or_firstBeyond maxNesting tokens with hwithin | ⟨token, hfirst⟩
    · obtain ⟨s, hs, hbuilt⟩ := ofItems_of_within hleads hwithin
      rw [finish_eq, hs] at hbuilt
      exact .inl ⟨hwithin, ⟨s.nodes.reverse⟩, hbuilt⟩
    · have hrefused := ofItems_firstBeyond hleads hfirst []
      rw [List.append_nil] at hrefused
      exact .inr ⟨hfirst.not_within, token, hfirst, hrefused⟩
  · rw [show (Token.scan source).failure = _ from hopen] at hends
    obtain ⟨opened, outer, rfl, rfl⟩ := hends
    obtain ⟨s, hs, hbuilt⟩ := ofItems_of_within hleads hwithin
    rw [hbuilt, finish_eq, hs]
  · exact Template.parse_of_error (ofItems_firstBeyond hleads hfirst _) name
  · cases hfailure : scan.failure with
    | some e =>
      refine Template.parse_of_error ?_ name
      show ofItems (tokens.map .ok ++ (scan.failure.map Except.error).toList) = _
      rw [hfailure]
      exact ofItems_error hleads hwithin e
    | none =>
      rw [show (Token.scan source).failure = none from hfailure] at hends
      obtain ⟨s, hs, hbuilt⟩ := ofItems_of_within hleads hwithin
      rw [finish_eq, hs, show last = [] from hends] at hbuilt
      have hsource : ofSource source = .ok ⟨s.nodes.reverse⟩ := by
        show ofItems (tokens.map .ok ++ (scan.failure.map Except.error).toList) = _
        rw [hfailure]
        simpa using hbuilt
      exact ⟨_, Template.parse_of_ofSource hsource name⟩

end Tree

/-! ## Trees within the limit -/

theorem Node.depthAll_append (nodes more : List Node) :
    Node.depthAll (nodes ++ more) = max (Node.depthAll nodes) (Node.depthAll more) := by
  induction nodes with
  | nil => exact (Nat.zero_max _).symm
  | cons node rest ih => rw [List.cons_append, Node.depthAll, Node.depthAll, ih, Nat.max_assoc]

theorem Node.depthAll_reverse (nodes : List Node) :
    Node.depthAll nodes.reverse = Node.depthAll nodes := by
  induction nodes with
  | nil => rfl
  | cons node rest ih =>
    rw [List.reverse_cons, Node.depthAll_append, ih, Node.depthAll, Node.depthAll, Node.depthAll,
      Nat.max_zero, Nat.max_comm]

namespace Tree

open State (closeChain)

theorem depth_closeChain {limit outer : Nat} {latest : ClosedBranch} {earlier : List ClosedBranch}
    {rest : Chain} (hlatest : Node.depthAll latest.body + (outer + 1) ≤ limit)
    (hearlier : ∀ b ∈ earlier, Node.depthAll b.body + (outer + 1) ≤ limit)
    (hrest : rest.depth + (outer + 1) ≤ limit) :
    (closeChain latest earlier rest).depth + outer ≤ limit := by
  induction earlier generalizing latest rest with
  | nil =>
    rw [closeChain, Node.depth]
    omega
  | cons before earlier ih =>
    rw [List.forall_mem_cons] at hearlier
    refine ih hearlier.1 hearlier.2 ?_
    rw [Chain.depth]
    omega

/-- What an open directive keeps stays within the limit, inside `outer` directives. -/
def Frame.Fits (outer : Nat) : Frame → Prop
  | .branch earlier _ _ around =>
    Node.depthAll around + outer ≤ maxNesting ∧
      ∀ b ∈ earlier, Node.depthAll b.body + (outer + 1) ≤ maxNesting
  | .otherwise latest earlier _ around =>
    Node.depthAll around + outer ≤ maxNesting ∧
      ∀ b ∈ latest :: earlier, Node.depthAll b.body + (outer + 1) ≤ maxNesting
  | .block _ around => Node.depthAll around + outer ≤ maxNesting

def FramesFit : List Frame → Prop
  | [] => True
  | frame :: outer => frame.Fits outer.length ∧ FramesFit outer

/-- A tree under construction stays within the limit. -/
def State.Fits (s : State) : Prop :=
  Node.depthAll s.nodes + s.frames.length ≤ maxNesting ∧ FramesFit s.frames

theorem State.Fits.append {s : State} (h : s.Fits) {node : Node}
    (hnode : node.depth + s.frames.length ≤ maxNesting) : (s.append node).Fits := by
  obtain ⟨hnodes, hframes⟩ := h
  refine ⟨?_, hframes⟩
  show max node.depth (Node.depthAll s.nodes) + s.frames.length ≤ maxNesting
  omega

/-- What is complete when a directive closes is within the limit. -/
theorem State.Fits.body {nodes : List Node} {frame : Frame} {outer : List Frame}
    (h : (⟨nodes, frame :: outer⟩ : State).Fits) :
    Node.depthAll nodes.reverse + (outer.length + 1) ≤ maxNesting := by
  rw [Node.depthAll_reverse]
  exact h.1

theorem fits_enter {frame : Frame} {outer : List Frame} (room : outer.length < maxNesting)
    (h : FramesFit (frame :: outer)) : (⟨[], frame :: outer⟩ : State).Fits := by
  refine ⟨?_, h⟩
  rw [Node.depthAll, List.length_cons]
  omega

theorem Pushed.fits {s s' : State} {token : Token} (h : Pushed s token s') (hs : s.Fits) :
    s'.Fits := by
  have hleaf {node : Node} (hnode : node.depth = 0) : (s.append node).Fits := by
    refine hs.append ?_
    have hroom := hs.1
    omega
  cases h with
  | text _ content position => exact hleaf rfl
  | bind _ name paren position => exact hleaf rfl
  | embedded _ name quoted position => exact hleaf rfl
  | ifThen _ condition position room => exact fits_enter room ⟨⟨hs.1, nofun⟩, hs.2⟩
  | beginBlock _ position room => exact fits_enter room hs
  | elseIf nodes around earlier before condition start position outer =>
    have hbody := hs.body
    obtain ⟨⟨haround, hearlier⟩, houter⟩ := hs.2
    exact fits_enter (by omega) ⟨⟨haround, List.forall_mem_cons.2 ⟨hbody, hearlier⟩⟩, houter⟩
  | otherwise nodes around earlier before start position outer =>
    have hbody := hs.body
    obtain ⟨⟨haround, hearlier⟩, houter⟩ := hs.2
    exact fits_enter (by omega) ⟨⟨haround, List.forall_mem_cons.2 ⟨hbody, hearlier⟩⟩, houter⟩
  | endBranch nodes around earlier condition start position outer =>
    have hbody := hs.body
    obtain ⟨⟨haround, hearlier⟩, houter⟩ := hs.2
    have hrest : Chain.done.depth + (outer.length + 1) ≤ maxNesting := by
      rw [Chain.depth]
      omega
    have hchain : (closeChain ⟨condition, start, nodes.reverse⟩ earlier .done).depth +
        outer.length ≤ maxNesting := depth_closeChain hbody hearlier hrest
    exact State.Fits.append (s := ⟨around, outer⟩) ⟨haround, houter⟩ hchain
  | endOtherwise nodes around latest earlier start position outer =>
    have hbody := hs.body
    obtain ⟨⟨haround, hclosed⟩, houter⟩ := hs.2
    obtain ⟨hlatest, hearlier⟩ := List.forall_mem_cons.1 hclosed
    have hchain : (closeChain latest earlier (.otherwise start nodes.reverse)).depth +
        outer.length ≤ maxNesting := depth_closeChain hlatest hearlier hbody
    exact State.Fits.append (s := ⟨around, outer⟩) ⟨haround, houter⟩ hchain
  | endBlock nodes around start position outer =>
    have hbody := hs.body
    obtain ⟨haround, houter⟩ := hs.2
    have hblock : (Node.block nodes.reverse).depth + outer.length ≤ maxNesting := by
      rw [Node.depth]
      omega
    exact State.Fits.append (s := ⟨around, outer⟩) ⟨haround, houter⟩ hblock

theorem fits_empty : State.empty.Fits := ⟨Nat.zero_le _, trivial⟩

theorem fits_pushAll {items : List (Except Error Token)} {s s' : State} (hs : s.Fits)
    (h : s.pushAll items = .ok s') : s'.Fits := by
  induction items generalizing s with
  | nil => exact Except.ok.inj h ▸ hs
  | cons item rest ih =>
    cases item with
    | error e => cases h
    | ok token =>
      simp only [State.pushAll] at h
      split at h
      · cases h
      · next next hp => exact ih ((pushed_of_push hp).fits hs) h

/-- A tree that is built nests no deeper than the limit. -/
theorem depth_le_of_ofItems {items : List (Except Error Token)} {t : Tree}
    (h : ofItems items = .ok t) : t.depth ≤ maxNesting := by
  unfold ofItems at h
  split at h
  · cases h
  · next s hs =>
    obtain ⟨hframes, rfl⟩ := finish_ok h
    have hfits := (fits_pushAll fits_empty hs).1
    rw [hframes] at hfits
    show Node.depthAll s.nodes.reverse ≤ maxNesting
    rw [Node.depthAll_reverse]
    exact hfits

end Tree

end TwoWaySql
