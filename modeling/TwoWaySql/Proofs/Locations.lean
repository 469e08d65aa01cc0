import Mathlib.Data.List.DropRight
import TwoWaySql.Proofs.Groups
import TwoWaySql.Proofs.Slices

/-!
# Where tokens and errors lie

A position says where something is in a source three times over, and each number follows from the
part of the source in front. This file

1. says what the numbers of a position are (`Position.Marks`) and shows it for the position behind
   any part that starts a source (`Position.marks_after`);
2. says what the source holds where an error is reported (`Error.Heads`), and follows an error from
   the reader that meets it to the source (`Error.LiesIn`, `Token.scanFrom_liesIn`);
3. shows that the tokens of a scan stand one behind the other, also where the scan fails
   (`Token.scanFrom_placed`);
4. shows which token opened each directive that is still open where a scan ends
   (`Token.Stacked.run`): behind it, whatever is opened is closed;
5. concludes that the positions of a source's tokens and errors are exact (`Token.scan_positions`).
-/

namespace TwoWaySql

open Token (Opened Nesting)

/-! ## The numbers of a position -/

/-- The part of a text behind its last newline. -/
def Text.lastLine (s : List Char) : List Char := s.rtakeWhile (· != '\n')

namespace Position

/-- The position is the place behind the part `front` that starts the source. Offsets and columns
count bytes, and lines are counted by their newlines. -/
structure Marks (p : Position) (front : List Char) (source : String) : Prop where
  starts : front <+: source.toList
  boundary : (String.Pos.Raw.mk p.offset).IsValid source
  offset : p.offset = (String.ofList front).utf8ByteSize
  line : p.line = front.count '\n' + 1
  column : p.column = (String.ofList (Text.lastLine front)).utf8ByteSize + 1

theorem line_after (p : Position) (s : List Char) : (p.after s).line = p.line + s.count '\n' := by
  induction s generalizing p with
  | nil => rfl
  | cons c rest ih =>
    show ((p.next c).after rest).line = _
    rw [ih, next]
    by_cases hc : c = '\n'
    · rw [if_pos hc, hc, List.count_cons_self]
      show p.line + 1 + rest.count '\n' = _
      omega
    · rw [if_neg hc, List.count_cons_of_ne hc]

/-- The column behind a part that starts a source. Each character either starts a new line or is the
last one of its line so far. -/
theorem column_start (front : List Char) :
    (start.after front).column = (String.ofList (Text.lastLine front)).utf8ByteSize + 1 := by
  induction front using List.reverseRecOn with
  | nil => rfl
  | append_singleton front c ih =>
    rw [after_append]
    show ((start.after front).next c).column = _
    rw [next, Text.lastLine, List.rtakeWhile_concat]
    by_cases hc : c = '\n'
    · rw [if_pos hc, hc]
      rfl
    · have hbytes : (String.ofList [c]).utf8ByteSize = c.utf8Size := by
        rw [← String.singleton_eq_ofList, String.utf8ByteSize_singleton]
      rw [if_neg hc, if_pos (bne_iff_ne.2 hc), String.ofList_append, String.utf8ByteSize_append,
        hbytes]
      show (start.after front).column + c.utf8Size = _
      rw [ih, Text.lastLine]
      omega

theorem marks_after {source : String} {front rest : List Char}
    (h : source.toList = front ++ rest) : (start.after front).Marks front source where
  starts := ⟨rest, h.symm⟩
  boundary := by
    have hsource : source = String.ofList front ++ String.ofList rest := by
      rw [← String.ofList_append, ← h, String.ofList_toList]
    refine String.Pos.Raw.isValid_iff_exists_append.2 ⟨_, _, hsource, ?_⟩
    rw [offset_start]
    rfl
  offset := offset_start front
  line := by
    rw [line_after]
    exact Nat.add_comm 1 _
  column := column_start front

end Position

/-! ## What stands where a position is -/

/-- What the source holds where a token stands. Text may start with any character. -/
def TokenKind.signs : TokenKind → List String
  | .text _ => [""]
  | .bind _ _ => [":", "/*"]
  | _ => ["/*"]

theorem TokenKind.Written.exists_sign {kind : TokenKind} {slice rest : List Char}
    (h : kind.Written slice rest) : ∃ sign ∈ kind.signs, sign.toList <+: slice := by
  have hcomment (content dummy : List Char) : "/*".toList <+: Text.comment content ++ dummy :=
    ⟨content ++ ['*', '/'] ++ dummy, rfl⟩
  cases h with
  | text decodes => exact ⟨"", List.mem_cons_self, List.nil_prefix⟩
  | sigil starts run => exact ⟨":", List.mem_cons_self, List.prefix_append [':'] _⟩
  | bind comment skipped =>
    exact ⟨"/*", List.mem_cons_of_mem _ List.mem_cons_self, hcomment _ _⟩
  | embedded comment skipped => exact ⟨"/*", List.mem_cons_self, hcomment _ _⟩
  | @mark content _ d _ comment mark =>
    have hsigns : kind.signs = ["/*"] := by
      cases d <;> simp only [Directive.marks, List.mem_cons, List.not_mem_nil, or_false] at mark <;>
        rcases mark with rfl | rfl <;> rfl
    rw [hsigns]
    refine ⟨"/*", List.mem_cons_self, ?_⟩
    rw [← List.append_nil (Text.comment content)]
    exact hcomment content []

/-- The word of the directive that a token opens. -/
def TokenKind.opened? : TokenKind → Option String
  | .ifThen _ => some "IF"
  | .beginBlock => some "BEGIN"
  | _ => none

/-- The word of a directive that opens a chain or a block. -/
def Directive.opened? : Directive → Option String
  | .ifThen _ => some "IF"
  | .beginBlock => some "BEGIN"
  | _ => none

/-- The word of a directive that goes on with a chain. -/
def Directive.alternate? : Directive → Option String
  | .elseIf word _ => some word
  | .otherwise => some "ELSE"
  | _ => none

theorem TokenKind.isSome_opened? (kind : TokenKind) : kind.opened?.isSome = kind.opens := by
  cases kind <;> rfl

theorem TokenKind.opens_of_opened? {kind : TokenKind} {word : String}
    (h : kind.opened? = some word) : kind.opens = true := by
  rw [← isSome_opened?, h]
  rfl

theorem TokenKind.opened?_of_mem_marks {kind : TokenKind} {d : Directive} (h : kind ∈ d.marks) :
    kind.opened? = d.opened? := by
  cases d <;> simp only [Directive.marks, List.mem_cons, List.not_mem_nil, or_false] at h <;>
    rcases h with rfl | rfl <;> rfl

/-- The text starts with what the fault is about: a comment, a literal or a group that has no end,
or the comment of a directive that is badly written. -/
inductive SyntaxFault.Heads : SyntaxFault → List Char → Prop
  | comment {rest : List Char} (unclosed : Text.cutComment? rest = none) :
    Heads .unterminatedComment ('/' :: '*' :: rest)
  | literal {rest : List Char} (unclosed : '\'' ∉ rest) : Heads .unterminatedString ('\'' :: rest)
  | group {rest : List Char} (unclosed : Text.StaysOpen ('(' :: rest)) :
    Heads .unterminatedParen ('(' :: rest)
  | directive {content : List Char} {fault : SyntaxFault} (rest : List Char)
    (starts : Directive.isDirective content = true)
    (closed : Text.cutComment? (content ++ ['*', '/']) = some (content, []))
    (read : Directive.read content = .error fault) : Heads fault (Text.comment content ++ rest)

/-- The directives that a fault of the nesting is about. -/
def NestingFault.Concerns (d : Directive) : NestingFault → Prop
  | .unmatchedEnd => d = .close
  | .alternateWithoutIf word | .alternateAfterElse word => d.alternate? = some word
  | .unterminated word => d.opened? = some word
  | .tooDeep _ => d.opened?.isSome = true

/-- The text starts with what the error is about. -/
def Error.Heads (s : List Char) : Error → Prop
  | .parse _ fault => fault.Heads s
  | .structural _ fault => ∃ content d rest, s = Text.comment content ++ rest ∧
      Directive.IsContent content d ∧ fault.Concerns d
  | _ => False

/-- The sign that the source holds where an error is reported. -/
def Error.sign : Error → String
  | .parse _ .unterminatedString => "'"
  | .parse _ .unterminatedParen => "("
  | _ => "/*"

/-- A fault of a directive's notation is about its comment as a whole. -/
theorem Directive.sign_of_read {content : List Char} {fault : SyntaxFault}
    (h : read content = .error fault) (position : Position) :
    (Error.parse position fault).sign = "/*" := by
  have ofEmbedded {quoted : Bool} {text : List Char} (h : readEmbedded quoted text = .error fault) :
      (Error.parse position fault).sign = "/*" := by
    unfold readEmbedded at h
    dsimp only at h
    split at h <;> cases h
    rfl
  have ofCondition {word : String} {rest : List Char} {make : String → Directive}
      (h : withCondition word rest make = .error fault) :
      (Error.parse position fault).sign = "/*" := by
    unfold withCondition at h
    split at h <;> cases h
    rfl
  have ofAlone {word : String} {rest : List Char} {d : Directive}
      (h : alone word rest d = .error fault) : (Error.parse position fault).sign = "/*" := by
    unfold alone at h
    split at h <;> cases h
    rfl
  unfold read at h
  split at h
  · exact ofEmbedded h
  · exact ofEmbedded h
  · unfold readWord at h
    split at h
    · exact ofCondition h
    · exact ofCondition h
    · exact ofCondition h
    · exact ofAlone h
    · exact ofAlone h
    · exact ofAlone h
    · split at h
      · split at h <;> cases h
        rfl
      · cases h
        rfl

theorem Error.Heads.sign_of_heads {e : Error} {s : List Char} (h : e.Heads s) :
    e.sign.toList <+: s := by
  have hcomment (content rest : List Char) : "/*".toList <+: Text.comment content ++ rest :=
    ⟨content ++ ['*', '/'] ++ rest, rfl⟩
  cases e with
  | parse position fault =>
    cases h with
    | comment unclosed => exact List.prefix_append "/*".toList _
    | literal unclosed => exact List.prefix_append "'".toList _
    | group unclosed => exact List.prefix_append "(".toList _
    | directive rest starts closed read =>
      rw [Directive.sign_of_read read]
      exact hcomment _ rest
  | structural position fault =>
    obtain ⟨content, d, rest, rfl, -, -⟩ := h
    exact hcomment content rest
  | _ => cases h

/-! ## Where an error is met -/

/-- The error lies in the text `s`, which starts at the given position: it is reported at a part of
it that starts with what the error is about. -/
def Error.LiesIn (e : Error) (position : Position) (s : List Char) : Prop :=
  ∃ front rest, s = front ++ rest ∧ e.position? = some (position.after front) ∧ e.Heads rest

namespace Error.LiesIn

variable {e : Error} {position : Position} {s : List Char}

theorem behind {front : List Char} (h : e.LiesIn (position.after front) s) :
    e.LiesIn position (front ++ s) := by
  obtain ⟨inner, rest, rfl, hposition, hheads⟩ := h
  refine ⟨front ++ inner, rest, (List.append_assoc ..).symm, ?_, hheads⟩
  rw [hposition, Position.after_append]

/-- An error that is reported where the text starts. -/
theorem here {fault : SyntaxFault} (h : fault.Heads s) :
    (Error.parse position fault).LiesIn position s :=
  ⟨[], s, rfl, rfl, h⟩

end Error.LiesIn

theorem Text.comment_append (content rest : List Char) :
    comment content ++ rest = '/' :: '*' :: (content ++ '*' :: '/' :: rest) := by
  simp [comment]

/-- A character that is not found does not occur. -/
theorem Text.not_mem_of_cutThrough? {mark : Char} {s : List Char} (h : cutThrough? mark s = none) :
    mark ∉ s := by
  induction s with
  | nil => exact List.not_mem_nil
  | cons c rest ih =>
    unfold cutThrough? at h
    split at h
    · cases h
    · next hc =>
      have hrest := ih (Option.map_eq_none_iff.1 h)
      rw [List.mem_cons, not_or]
      exact ⟨Ne.symm hc, hrest⟩

theorem Dummy.liesIn_of_read {position : Position} {s : List Char} {e : Error}
    (h : read position s = .error e) : e.LiesIn position s := by
  have hread := h
  unfold read at h
  split at h
  · split at h
    · cases h
    · next hcut =>
      cases h
      exact .here (.literal (Text.not_mem_of_cutThrough? hcut))
  · next rest =>
    have hhead : ('(' :: rest).head? = some '(' := rfl
    rcases read_group hhead position with ⟨group, behind, -, -, hgroup⟩ | hopen
    · rw [hread] at hgroup
      cases hgroup
    · rcases read_of_staysOpen hopen hhead position with
        ⟨before, behind, hsplit, -, hbehind, herror⟩ | ⟨-, herror⟩
      · rw [hread] at herror
        cases herror
        exact ⟨before, _, hsplit, rfl, .literal hbehind⟩
      · rw [hread] at herror
        cases herror
        exact .here (.group hopen)
  · cases h

namespace Lexeme

variable {position : Position} {c : Char} {s : List Char} {e : Error}

/-- Only a variable reads on behind its comment. -/
theorem liesIn_of_ofDirective {content rest : List Char} {d : Directive}
    (h : ofDirective position content rest d = .error e) :
    e.LiesIn position (Text.comment content ++ rest) := by
  have ofDummy {make : Dummy → Reading}
      (hd : (Dummy.read (position.after (Text.comment content)) rest).map make = .error e) :
      e.LiesIn position (Text.comment content ++ rest) := by
    cases hdummy : Dummy.read (position.after (Text.comment content)) rest with
    | error fault =>
      rw [hdummy] at hd
      cases hd
      exact (Dummy.liesIn_of_read hdummy).behind
    | ok dummy =>
      rw [hdummy] at hd
      cases hd
  cases d with
  | bind name => exact ofDummy h
  | embedded name quoted => exact ofDummy h
  | _ => cases h

theorem liesIn_of_readSlash (h : readSlash position s = .error e) :
    e.LiesIn position ('/' :: s) := by
  unfold readSlash at h
  split at h
  · split at h
    · next hcut =>
      cases h
      exact .here (.comment hcut)
    · next content rest hcut =>
      have hclosed := Text.cutComment?_front hcut []
      rw [← Text.append_of_cutComment? hcut, ← Text.comment_append]
      split at h
      · next hdirective =>
        split at h
        · next fault hread =>
          cases h
          exact .here (.directive rest hdirective hclosed hread)
        · exact liesIn_of_ofDirective h
      · cases h
  · cases h

/-- A lexeme that cannot be read is reported where the trouble starts. -/
theorem liesIn_of_read (h : read position c s = .error e) : e.LiesIn position (c :: s) := by
  unfold read at h
  split at h
  · cases h
  · split at h
    · next hc =>
      subst hc
      unfold readLiteral at h
      split at h
      · cases h
      · next hcut =>
        cases h
        exact .here (.literal (Text.not_mem_of_cutThrough? hcut))
    · split at h
      · cases h
      · split at h
        · next hc => exact hc ▸ liesIn_of_readSlash h
        · split at h <;> cases h

/-- A directive that may not stand where it stands is what the fault is about. -/
theorem concerns_of_accept {content behind : List Char} {d : Directive} {r : Reading}
    {nesting : Nesting} (h : ofDirective position content behind d = .ok r)
    (haccept : Token.accept nesting position r.lexeme = .error e) :
    ∃ fault, e = .structural position fault ∧ fault.Concerns d := by
  have ofAlternate {word : String} {make : Unit → TokenKind × Nesting}
      (hword : d.alternate? = some word)
      (hcheck : (Token.checkAlternate nesting position word).map make = .error e) :
      ∃ fault, e = .structural position fault ∧ fault.Concerns d := by
    unfold Token.checkAlternate at hcheck
    split at hcheck <;> cases hcheck
    · exact ⟨_, rfl, hword⟩
    · exact ⟨_, rfl, hword⟩
  cases d with
  | bind | embedded =>
    obtain ⟨dummy, -, rfl⟩ := exists_of_map_eq_ok h
    cases haccept
  | ifThen | beginBlock =>
    cases h
    cases haccept
  | elseIf | otherwise =>
    cases h
    exact ofAlternate rfl haccept
  | close =>
    cases h
    simp only [Token.accept] at haccept
    split at haccept <;> cases haccept
    exact ⟨_, rfl, rfl⟩

theorem liesIn_of_accept {r : Reading} {nesting : Nesting} (h : read position c s = .ok r)
    (haccept : Token.accept nesting position r.lexeme = .error e) : e.LiesIn position (c :: s) := by
  rcases cases_of_read h with ⟨decoded, hlexeme⟩ | ⟨rfl, name, behind, rfl, -, -⟩ |
    ⟨rfl, content, behind, d, hcontent, hread⟩
  · rw [hlexeme] at haccept
    cases haccept
  · cases haccept
  · obtain ⟨fault, rfl, hfault⟩ := concerns_of_accept hread haccept
    have hsource : '/' :: s = Text.comment content ++ behind := by
      rw [← append_of_read h, append_of_ofDirective hread, Text.comment_append]
    exact ⟨[], '/' :: s, rfl, rfl, content, d, behind, hsource, hcontent, hfault⟩

end Lexeme

namespace Token

/-- A scan fails for a directive that is left open, or for something that lies in what it reads. -/
theorem scanFrom_liesIn {nesting : Nesting} {pending : Pending} {position : Position}
    {s : List Char} {e : Error} (h : (scanFrom nesting pending position s).failure = some e) :
    (∃ start word, e = .structural start (.unterminated word)) ∨ e.LiesIn position s := by
  have onwards {position : Position} {c : Char} {s taken rest : List Char} {lexeme : Lexeme}
      (hread : Lexeme.read position c s = .ok ⟨lexeme, taken, rest⟩)
      (h : e.LiesIn (position.after (c :: taken)) rest) : e.LiesIn position (c :: s) := by
    have hbehind := h.behind
    rwa [List.cons_append, Lexeme.append_of_read hread] at hbehind
  fun_induction scanFrom nesting pending position s with
  | case1 pending position => cases h
  | case2 pending position opened start outer =>
    cases h
    exact .inl ⟨start, opened.word, rfl⟩
  | case3 nesting pending position c s fault hread =>
    cases h
    exact .inr (Lexeme.liesIn_of_read hread)
  | case4 nesting pending position c s decoded taken rest hread ih =>
    exact (ih h).imp_right (onwards hread)
  | case5 nesting pending position c s lexeme taken rest hnot hread fault haccept =>
    cases h
    exact .inr (Lexeme.liesIn_of_accept hread haccept)
  | case6 nesting pending position c s lexeme taken rest hnot hread kind next haccept ih =>
    exact (ih h).imp_right (onwards hread)

/-! ## Where tokens stand -/

/-- The token stands behind the part `front` of the source, for the slice that follows. -/
structure StandsAt (token : Token) (front slice rest : List Char) : Prop where
  nonempty : slice ≠ []
  place : token.position = Position.start.after front
  written : token.kind.Written slice rest

/-- The tokens stand one behind the other in the text `s`, which follows the part `front` of the
source. What is behind the last one does not matter. -/
inductive Placed : (front : List Char) → List Token → (s : List Char) → Prop
  | nil (front s : List Char) : Placed front [] s
  | cons {front slice rest : List Char} {token : Token} {tokens : List Token}
    (stands : token.StandsAt front slice rest) (others : Placed (front ++ slice) tokens rest) :
    Placed front (token :: tokens) (slice ++ rest)

namespace Placed

variable {front s : List Char} {tokens : List Token}

theorem exists_slice (h : Placed front tokens s) {token : Token} (htoken : token ∈ tokens) :
    ∃ between slice rest, s = between ++ (slice ++ rest) ∧
      token.StandsAt (front ++ between) slice rest := by
  induction h with
  | nil front s => cases htoken
  | @cons front slice rest first tokens stands others ih =>
    rcases List.mem_cons.1 htoken with rfl | htoken
    · exact ⟨[], slice, rest, rfl, by rwa [List.append_nil]⟩
    · obtain ⟨between, inner, behind, rfl, hstands⟩ := ih htoken
      exact ⟨slice ++ between, inner, behind, (List.append_assoc ..).symm,
        by rwa [← List.append_assoc]⟩

/-- Each token starts behind the slice of the one before it, which is not empty. -/
theorem pairwise (h : Placed front tokens s) :
    tokens.Pairwise (fun token next => token.position.offset < next.position.offset) := by
  induction h with
  | nil front s => exact .nil
  | @cons front slice rest first tokens stands others ih =>
    refine .cons (fun next hnext => ?_) ih
    obtain ⟨between, inner, behind, -, hstands⟩ := others.exists_slice hnext
    rw [stands.place, hstands.place, Position.after_append, Position.after_append]
    exact Nat.lt_of_lt_of_le (Position.offset_lt_after _ stands.nonempty)
      (Position.offset_le_after _ between)

end Placed

theorem Pending.Holds.placed {pending : Pending} {front slice s : List Char}
    (h : pending.Holds front slice s) {more : List Token}
    (hmore : Placed (front ++ slice) more s) :
    Placed front (pending.tokens ++ more) (slice ++ s) := by
  by_cases hslice : slice = []
  · rw [tokens_of_empty (h.text_eq_iff.2 hslice), hslice]
    rwa [hslice, List.append_nil] at hmore
  · obtain ⟨htokens, hwritten⟩ := h.tokens_eq hslice
    rw [htokens]
    exact .cons ⟨hslice, rfl, hwritten⟩ hmore

/-- The tokens of a scan stand one behind the other, from the slice on that the pending text was
read from. -/
theorem scanFrom_placed {nesting : Nesting} {pending : Pending} {position : Position}
    {front slice s : List Char} (hposition : position = Position.start.after (front ++ slice))
    (h : pending.Holds front slice s) :
    Placed front (scanFrom nesting pending position s).tokens (slice ++ s) := by
  fun_induction scanFrom nesting pending position s generalizing front slice with
  | case1 pending position =>
    have hend := h.placed (.nil _ [])
    rwa [List.append_nil] at hend
  -- where a scan fails, what is pending becomes no token
  | case2 | case3 | case5 => exact .nil front _
  | case4 nesting pending position c s decoded taken rest hread ih =>
    subst hposition
    have hplace : (Position.start.after (front ++ slice)).after (c :: taken) =
        Position.start.after (front ++ (slice ++ c :: taken)) := by
      rw [← Position.after_append, List.append_assoc]
    have hnext := ih hplace (h.push hread)
    rwa [List.append_assoc, List.cons_append, Lexeme.append_of_read hread] at hnext
  | case6 nesting pending position c s lexeme taken rest hnot hread kind next haccept ih =>
    subst hposition
    have hplace : (Position.start.after (front ++ slice)).after (c :: taken) =
        Position.start.after (front ++ slice ++ c :: taken ++ []) := by
      rw [← Position.after_append, List.append_nil]
    have hinner := ih hplace (.none _ rest)
    have hstands : StandsAt ⟨kind, Position.start.after (front ++ slice)⟩ (front ++ slice)
        (c :: taken) rest :=
      ⟨List.cons_ne_nil c taken, rfl, Lexeme.written_of_read hread hnot haccept⟩
    have htoken : Placed (front ++ slice) (_ :: _) (c :: taken ++ rest) := .cons hstands hinner
    rw [List.cons_append, Lexeme.append_of_read hread] at htoken
    have hall := h.placed htoken
    rwa [Scan.prepend, List.append_assoc, List.singleton_append]

theorem scan_placed (source : String) : Placed [] (scan source).tokens source.toList :=
  scanFrom_placed rfl (.none [] source.toList)

/-! ## Directives that are left open -/

/-- The tokens close each directive that they open, and no other one. -/
inductive Closed : List Token → Prop
  | nil : Closed []
  | leaf {token : Token} {rest : List Token} (opens : token.kind.opens = false)
    (closes : token.kind.closes = false) (more : Closed rest) : Closed (token :: rest)
  | pair {first last : Token} {inner rest : List Token} (opens : first.kind.opens = true)
    (within : Closed inner) (closes : last.kind.closes = true) (more : Closed rest) :
    Closed (first :: (inner ++ last :: rest))

theorem Closed.append {tokens more : List Token} (h : Closed tokens) (hmore : Closed more) :
    Closed (tokens ++ more) := by
  induction h with
  | nil => exact hmore
  | leaf opens closes _ ih => exact .leaf opens closes ih
  | @pair first last inner rest opens within closes _ _ ih =>
    rw [List.cons_append, List.append_assoc, List.cons_append]
    exact .pair opens within closes ih

/-- The token opens a directive that is left open, innermost of all: what is opened behind it is
closed, and it is not. -/
def LeftOpen (tokens : List Token) (token : Token) : Prop :=
  ∃ before after, tokens = before ++ token :: after ∧ token.kind.opens = true ∧ Closed after

/-- The open directives were opened by tokens of the row, each of them left open by those behind
it. -/
inductive Stacked : List Token → Nesting → Prop
  | closed {tokens : List Token} (closed : Closed tokens) : Stacked tokens []
  | opened {before after : List Token} {token : Token} {opened : Opened} {outer : Nesting}
    (around : Stacked before outer) (opens : token.kind.opened? = some opened.word)
    (behind : Closed after) :
    Stacked (before ++ token :: after) ((opened, token.position) :: outer)

namespace Stacked

variable {tokens : List Token} {around next : Nesting} {token : Token}

theorem append (h : Stacked tokens around) {more : List Token} (hmore : Closed more) :
    Stacked (tokens ++ more) around := by
  cases h with
  | closed closed => exact .closed (closed.append hmore)
  | opened around opens behind =>
    rw [List.append_assoc, List.cons_append]
    exact .opened around opens (behind.append hmore)

/-- A directive that closes makes one row of what it opened and what is in front. -/
theorem close {opened : Opened} {start : Position} {outer : Nesting}
    (h : Stacked tokens ((opened, start) :: outer)) (hcloses : token.kind.closes = true) :
    Stacked (tokens ++ [token]) outer := by
  cases h with
  | opened around opens behind =>
    rw [List.append_assoc, List.cons_append]
    exact around.append (.pair (TokenKind.opens_of_opened? opens) behind hcloses .nil)

theorem step (h : Stacked tokens around) (hleads : Leads around token next) :
    Stacked (tokens ++ [token]) next := by
  cases hleads with
  | text | bind | embedded | elseIf => exact h.append (.leaf rfl rfl .nil)
  | ifThen | beginBlock => exact .opened h rfl .nil
  | otherwise outer start position =>
    cases h with
    | opened around opens behind =>
      rw [List.append_assoc, List.cons_append]
      exact .opened around opens (behind.append (.leaf rfl rfl .nil))
  | endIf | endBlock => exact h.close rfl

theorem run {last : Nesting} {more : List Token} (h : Stacked tokens around)
    (hleads : LeadsAll around more last) : Stacked (tokens ++ more) last := by
  induction hleads generalizing tokens with
  | nil => rwa [List.append_nil]
  | @cons around inner last token rest first _ ih =>
    rw [← List.singleton_append, ← List.append_assoc]
    exact ih (h.step first)

end Stacked

/-- What a scan reports as left open is opened by a token of it, and is the innermost one that
is. -/
theorem leftOpen_of_scan {source : String} {start : Position} {word : String}
    (h : (scan source).failure = some (.structural start (.unterminated word))) :
    ∃ token ∈ (scan source).tokens, token.position = start ∧ token.kind.opened? = some word ∧
      LeftOpen (scan source).tokens token := by
  obtain ⟨last, hleads, hends⟩ := scan_leads source
  have hstacked := (Stacked.closed .nil).run hleads
  rw [h] at hends
  obtain ⟨opened, outer, rfl, rfl⟩ := hends
  rw [List.nil_append] at hstacked
  generalize (scan source).tokens = tokens at hstacked
  cases hstacked with
  | @opened before after token _ _ around opens behind =>
    exact ⟨token, List.mem_append_right _ List.mem_cons_self, rfl, opens, before, after, rfl,
      TokenKind.opens_of_opened? opens, behind⟩

/-- A token that opens a directive stands at the comment of that directive. -/
theorem liesIn_of_opened? {source : String} {token : Token} {word : String} {fault : NestingFault}
    (htoken : token ∈ (scan source).tokens) (hopens : token.kind.opened? = some word)
    (hfault : ∀ d : Directive, d.opened? = some word → fault.Concerns d) :
    (Error.structural token.position fault).LiesIn .start source.toList := by
  obtain ⟨front, slice, rest, hsource, hstands⟩ := (scan_placed source).exists_slice htoken
  rw [List.nil_append] at hstands
  have hwritten := hstands.written
  have hposition : (Error.structural token.position fault).position? =
      some (Position.start.after front) := congrArg some hstands.place
  generalize token.kind = kind at hopens hwritten
  cases hwritten with
  | @mark content _ d _ comment mark =>
    rw [TokenKind.opened?_of_mem_marks mark] at hopens
    exact ⟨front, _, hsource, hposition, content, d, rest, rfl, comment, hfault d hopens⟩
  | _ => cases hopens

theorem liesIn_of_scan {source : String} {e : Error} (h : (scan source).failure = some e) :
    e.LiesIn .start source.toList := by
  rcases scanFrom_liesIn h with ⟨start, word, rfl⟩ | hlies
  · obtain ⟨token, htoken, rfl, hopens, -⟩ := leftOpen_of_scan h
    exact liesIn_of_opened? htoken hopens fun d hd => hd
  · exact hlies

end Token

/-! ## Templates -/

/-- A source that yields no tree fails in its scan, or opens a directive beyond the limit. -/
theorem Tree.error_of_ofSource {source : String} {e : Error} (h : ofSource source = .error e) :
    (Token.scan source).failure = some e ∨
      ∃ token ∈ (Token.scan source).tokens, token.kind.opens = true ∧
        e = .structural token.position (.tooDeep maxNesting) := by
  obtain ⟨last, hleads, hends⟩ := Token.scan_leads source
  unfold ofSource Scan.items at h
  rcases Token.within_or_firstBeyond maxNesting (Token.scan source).tokens with
    hwithin | ⟨token, hfirst⟩
  · left
    cases hfailure : (Token.scan source).failure with
    | some fault =>
      rw [hfailure] at h
      cases (ofItems_error hleads hwithin fault).symm.trans h
      rfl
    | none =>
      rw [hfailure] at h hends
      obtain ⟨s, hs, hbuilt⟩ := ofItems_of_within hleads hwithin
      rw [finish_eq, hs, show last = [] from hends] at hbuilt
      rw [Option.map_none, Option.toList_none, List.append_nil, hbuilt] at h
      cases h
  · right
    rw [ofItems_firstBeyond hleads hfirst] at h
    have hopens := hfirst.opens
    obtain ⟨before, after, htokens, -, -⟩ := hfirst
    refine ⟨token, ?_, hopens, (Except.error.inj h).symm⟩
    rw [htokens]
    exact List.mem_append_right before List.mem_cons_self

theorem Template.error_of_parse {name : Option String} {source : String} {e : Error}
    (h : parse name source = .error e) : Tree.ofSource source = .error e := by
  cases htree : Tree.ofSource source with
  | ok tree =>
    rw [parse_of_ofSource htree] at h
    cases h
  | error fault =>
    rw [parse_of_error htree] at h
    exact congrArg Except.error (Except.error.inj h)

namespace Token

/-- Positions are exact: each token of a source, and each error that the source is refused for,
stands where its position says, at the sign and the whole notation of what it is about, and offsets
grow from token to token. What is reported as left open is the comment of the innermost directive
that is. -/
theorem scan_positions (source : String) (name : Option String) :
    let tokens := (scan source).tokens
    (∀ token ∈ tokens, ∃ front slice rest, source.toList = front ++ (slice ++ rest) ∧
        token.position.Marks front source ∧ token.kind.Written slice rest ∧
        ∃ sign ∈ token.kind.signs, sign.toList <+: slice) ∧
      tokens.Pairwise (fun token next => token.position.offset < next.position.offset) ∧
      ∀ e, (scan source).failure = some e ∨ Template.parse name source = .error e →
        ∃ position front rest, e.position? = some position ∧ source.toList = front ++ rest ∧
          position.Marks front source ∧ e.sign.toList <+: rest ∧ e.Heads rest ∧
          ∀ word, e = .structural position (.unterminated word) →
            ∃ token ∈ tokens, token.position = position ∧ token.kind.opened? = some word ∧
              LeftOpen tokens token := by
  intro tokens
  have hplaced : Placed [] tokens source.toList := scan_placed source
  refine ⟨fun token htoken => ?_, hplaced.pairwise, fun e he => ?_⟩
  · obtain ⟨front, slice, rest, hsource, hstands⟩ := hplaced.exists_slice htoken
    rw [List.nil_append] at hstands
    have hmarks := Position.marks_after hsource
    rw [← hstands.place] at hmarks
    exact ⟨front, slice, rest, hsource, hmarks, hstands.written, hstands.written.exists_sign⟩
  · have hcause : (scan source).failure = some e ∨
        ∃ token ∈ tokens, token.kind.opens = true ∧
          e = .structural token.position (.tooDeep Tree.maxNesting) := by
      rcases he with hfailure | hparse
      · exact .inl hfailure
      · exact Tree.error_of_ofSource (Template.error_of_parse hparse)
    have hlies : e.LiesIn .start source.toList := by
      rcases hcause with hfailure | ⟨token, htoken, hopens, rfl⟩
      · exact liesIn_of_scan hfailure
      · rw [← TokenKind.isSome_opened?] at hopens
        obtain ⟨word, hword⟩ := Option.isSome_iff_exists.1 hopens
        exact liesIn_of_opened? htoken hword fun d hd => Option.isSome_of_eq_some hd
    obtain ⟨front, rest, hsource, hposition, hheads⟩ := hlies
    refine ⟨_, front, rest, hposition, hsource, Position.marks_after hsource,
      hheads.sign_of_heads, hheads, ?_⟩
    intro word hword
    rcases hcause with hfailure | ⟨token, -, -, rfl⟩
    · exact leftOpen_of_scan (hword ▸ hfailure)
    · cases (Error.structural.inj hword).2

/-- Lines of several bytes a character, with a block that is left open and a directive behind it
that is closed, and a literal that is left open inside a dummy value. -/
theorem scan_positions_lines :
    let source := "é '\n' :x\n/*IF é*/ü /*BEGIN*/ /*IF b*/('é\n')/*END*/ /*y*/(2)\n"
    let list := "/*x*/(1,\n 'é"
    let tokens := (scan source).tokens
    let binds : List Token := [⟨.bind "x" false, ⟨7, 2, 3⟩⟩, ⟨.bind "y" true, ⟨55, 4, 11⟩⟩]
    (∀ token ∈ binds, token ∈ tokens ∧ ∃ front, token.position.Marks front source) ∧
      (scan source).failure = some (.structural ⟨22, 3, 13⟩ (.unterminated "BEGIN")) ∧
      (∃ token ∈ tokens, token.position = ⟨22, 3, 13⟩ ∧ token.kind.opened? = some "BEGIN" ∧
        LeftOpen tokens token) ∧
      (scan list).failure = some (.parse ⟨10, 2, 2⟩ .unterminatedString) ∧
      ∃ front rest, list.toList = front ++ rest ∧ (Position.mk 10 2 2).Marks front list ∧
        "'".toList <+: rest := by
  intro source list tokens binds
  have hscan : (∀ token ∈ binds, token ∈ tokens) ∧
      (scan source).failure = some (.structural ⟨22, 3, 13⟩ (.unterminated "BEGIN")) ∧
      (scan list).failure = some (.parse ⟨10, 2, 2⟩ .unterminatedString) := by
    decide +kernel
  obtain ⟨hbinds, hopen, hliteral⟩ := hscan
  obtain ⟨htokens, -, herrors⟩ := scan_positions source none
  obtain ⟨position, front, rest, hposition, -, -, -, -, hleft⟩ := herrors _ (.inl hopen)
  obtain rfl := Option.some.inj hposition
  obtain ⟨-, -, herrors⟩ := scan_positions list none
  obtain ⟨position, front, rest, hposition, hsource, hmarks, hsign, -⟩ :=
    herrors _ (.inl hliteral)
  obtain rfl := Option.some.inj hposition
  refine ⟨fun token htoken => ?_, hopen, hleft "BEGIN" rfl, hliteral, front, rest, hsource, hmarks,
    hsign⟩
  obtain ⟨front, slice, rest, -, hmarks, -⟩ := htokens token (hbinds token htoken)
  exact ⟨hbinds token htoken, front, hmarks⟩

end Token

end TwoWaySql
