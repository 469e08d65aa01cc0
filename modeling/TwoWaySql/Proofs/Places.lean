import TwoWaySql.Token.Scan

/-!
# Sources in another place

A text that stands behind another one is scanned as it is alone, and each place in the result, of a
token or of an error, is the place in the text counted from where the text starts
(`Token.scanFrom_moved`). The readers of the scan hand positions on and move them over characters,
and `Position.behind` commutes with that (`Position.behind_next`), so each reader owes one lemma.
-/

namespace TwoWaySql

/-! ## Places behind a base -/

namespace Position

/-- The place `p` of a text, where the text starts at `base`. -/
def behind (base p : Position) : Position where
  offset := base.offset + p.offset
  line := base.line + p.line - 1
  column := if p.line = 1 then base.column + p.column - 1 else p.column

/-- Lines and columns count from one. -/
def Proper (p : Position) : Prop := 0 < p.line ∧ 0 < p.column

theorem proper_start : start.Proper := ⟨Nat.one_pos, Nat.one_pos⟩

theorem Proper.next {p : Position} (h : p.Proper) (c : Char) : (p.next c).Proper := by
  unfold Position.next
  split
  · exact ⟨Nat.succ_pos _, Nat.one_pos⟩
  · exact ⟨h.1, Nat.add_pos_left h.2 _⟩

theorem Proper.after {p : Position} (h : p.Proper) (s : List Char) : (p.after s).Proper := by
  induction s generalizing p with
  | nil => exact h
  | cons c rest ih => exact ih (h.next c)

theorem behind_start (base : Position) : base.behind start = base := rfl

theorem behind_next (base : Position) {p : Position} (h : p.Proper) (c : Char) :
    base.behind (p.next c) = (base.behind p).next c := by
  obtain ⟨hline, hcolumn⟩ := h
  unfold Position.next behind
  by_cases hc : c = '\n'
  · have hfirst : ¬ p.line + 1 = 1 := by omega
    rw [if_pos hc, if_pos hc]
    simp only [hfirst, if_false, mk.injEq, and_true]
    omega
  · rw [if_neg hc, if_neg hc]
    simp only [mk.injEq]
    refine ⟨by omega, trivial, ?_⟩
    split <;> omega

theorem behind_after (base : Position) {p : Position} (h : p.Proper) (s : List Char) :
    base.behind (p.after s) = (base.behind p).after s := by
  induction s generalizing p with
  | nil => rfl
  | cons c rest ih =>
    show base.behind ((p.next c).after rest) = ((base.behind p).next c).after rest
    rw [ih (h.next c), behind_next base h c]

end Position

/-- The error of a text that starts at `base`. -/
def Error.behind (base : Position) : Error → Error
  | .parse position fault => .parse (base.behind position) fault
  | .structural position fault => .structural (base.behind position) fault
  | e => e

/-- The token of a text that starts at `base`. -/
def Token.behind (base : Position) (t : Token) : Token :=
  { t with position := base.behind t.position }

/-- The scan of a text that starts at `base`. -/
def Scan.behind (base : Position) (s : Scan) : Scan :=
  ⟨s.tokens.map (Token.behind base), s.failure.map (Error.behind base)⟩

/-- The open directives of a text that starts at `base`. -/
def Token.Nesting.behind (base : Position) (nesting : Token.Nesting) : Token.Nesting :=
  nesting.map fun (opened, start) => (opened, base.behind start)

variable (base : Position)

theorem Scan.behind_prepend (tokens : List Token) (s : Scan) :
    (s.prepend tokens).behind base = (s.behind base).prepend (tokens.map (Token.behind base)) := by
  simp [behind, prepend]

/-! ## Dummy values -/

namespace Dummy

theorem skipGroup_moved (depth : Nat) (quote : Option Position) {position : Position}
    (h : position.Proper) (s : List Char) :
    skipGroup depth (quote.map base.behind) (base.behind position) s =
      (skipGroup depth quote position s).mapError (Option.map base.behind) := by
  induction s generalizing depth quote position with
  | nil => rfl
  | cons c rest ih =>
    have onwards (depth : Nat) (quote : Option Position) :
        (skipGroup depth (quote.map base.behind) ((base.behind position).next c) rest).map
            (Prod.map (c :: ·) id) =
          ((skipGroup depth quote (position.next c) rest).map (Prod.map (c :: ·) id)).mapError
            (Option.map base.behind) := by
      rw [← Position.behind_next base h c, ih depth quote (h.next c)]
      cases skipGroup depth quote (position.next c) rest <;> rfl
    unfold skipGroup
    simp only
    cases quote with
    | some start =>
      simp only [Option.map_some]
      split
      · exact onwards depth none
      · exact onwards depth (some start)
    | none =>
      simp only [Option.map_none]
      split
      · exact onwards depth (some position)
      · split
        · exact onwards (depth + 1) none
        · split
          · split
            · rfl
            · exact onwards (depth - 1) none
          · exact onwards depth none

theorem read_moved {position : Position} (h : position.Proper) (s : List Char) :
    read (base.behind position) s = (read position s).mapError (Error.behind base) := by
  unfold read
  split
  · split <;> rfl
  · next rest =>
    have hgroup := skipGroup_moved base 0 none h ('(' :: rest)
    rw [Option.map_none] at hgroup
    rw [hgroup]
    cases skipGroup 0 none position ('(' :: rest) with
    | ok read => rfl
    | error quote => cases quote <;> rfl
  · rfl

end Dummy

/-! ## Lexemes -/

namespace Lexeme

theorem ofDirective_moved {position : Position} (h : position.Proper) (content s : List Char)
    (d : Directive) :
    ofDirective (base.behind position) content s d =
      (ofDirective position content s d).mapError (Error.behind base) := by
  have ofDummy (make : Dummy → Reading) (comment : List Char) :
      (Dummy.read ((base.behind position).after comment) s).map make =
        ((Dummy.read (position.after comment) s).map make).mapError (Error.behind base) := by
    rw [← Position.behind_after base h, Dummy.read_moved base (h.after comment)]
    cases Dummy.read (position.after comment) s <;> rfl
  cases d with
  | bind name => exact ofDummy _ _
  | embedded name quoted => exact ofDummy _ _
  | _ => rfl

theorem readSlash_moved {position : Position} (h : position.Proper) (s : List Char) :
    readSlash (base.behind position) s =
      (readSlash position s).mapError (Error.behind base) := by
  unfold readSlash
  split
  · split
    · rfl
    · split
      · split
        · rfl
        · exact ofDirective_moved base h _ _ _
      · rfl
  · rfl

theorem readLiteral_moved (position : Position) (s : List Char) :
    readLiteral (base.behind position) s =
      (readLiteral position s).mapError (Error.behind base) := by
  unfold readLiteral
  split <;> rfl

theorem read_moved {position : Position} (h : position.Proper) (c : Char) (s : List Char) :
    read (base.behind position) c s = (read position c s).mapError (Error.behind base) := by
  unfold read
  repeat' split
  · rfl
  · exact readLiteral_moved base position s
  · rfl
  · exact readSlash_moved base h s
  · rfl
  · rfl

end Lexeme

/-! ## Scans -/

namespace Token

theorem checkAlternate_moved (nesting : Nesting) (position : Position) (word : String) :
    checkAlternate (nesting.behind base) (base.behind position) word =
      (checkAlternate nesting position word).mapError (Error.behind base) := by
  obtain _ | ⟨⟨_ | _, start⟩, outer⟩ := nesting
  · rfl
  · next afterElse => cases afterElse <;> rfl
  · rfl

/-- What a token opens or closes is the same in another place. -/
theorem accept_moved (nesting : Nesting) (position : Position) (lexeme : Lexeme) :
    accept (nesting.behind base) (base.behind position) lexeme =
      ((accept nesting position lexeme).map fun (kind, next) =>
        (kind, next.behind base)).mapError (Error.behind base) := by
  cases lexeme with
  | elseIf word condition =>
    simp only [accept, checkAlternate_moved]
    cases checkAlternate nesting position word <;> rfl
  | otherwise =>
    simp only [accept, checkAlternate_moved]
    cases checkAlternate nesting position "ELSE" with
    | error e => rfl
    | ok => cases nesting <;> rfl
  | close => obtain _ | ⟨⟨_ | _, start⟩, outer⟩ := nesting <;> rfl
  | _ => rfl

/-- The same text is pending in another place. Without text there is no place. -/
def Pending.Moved (pending pending' : Pending) : Prop :=
  pending'.text = pending.text ∧
    (pending.text ≠ "" → pending'.position = base.behind pending.position)

variable {base}

theorem Pending.Moved.push {pending pending' : Pending} (h : pending.Moved base pending')
    (position : Position) (decoded : List Char) :
    (pending.push position decoded).Moved base
      (pending'.push (base.behind position) decoded) := by
  obtain ⟨htext, hplace⟩ := h
  refine ⟨by rw [push_text, push_text, htext], fun _ => ?_⟩
  unfold Pending.push
  rw [htext]
  by_cases hempty : pending.text = ""
  · simp [hempty]
  · simp [hempty, hplace hempty]

theorem Pending.Moved.tokens {pending pending' : Pending} (h : pending.Moved base pending') :
    pending'.tokens = pending.tokens.map (Token.behind base) := by
  obtain ⟨htext, hplace⟩ := h
  unfold Pending.tokens
  rw [htext]
  by_cases hempty : pending.text = ""
  · simp [hempty]
  · simp [hempty, hplace hempty, Token.behind]

/-- A text is scanned in the same way in another place, and all places move with it. -/
theorem scanFrom_moved {nesting : Nesting} {pending pending' : Pending} {position : Position}
    (hp : position.Proper) (h : pending.Moved base pending') (s : List Char) :
    scanFrom (nesting.behind base) pending' (base.behind position) s =
      (scanFrom nesting pending position s).behind base := by
  fun_induction scanFrom nesting pending position s generalizing pending' with
  | case1 pending position =>
    rw [Nesting.behind, List.map_nil, scanFrom, h.tokens]
    rfl
  | case2 pending position opened start outer =>
    rw [Nesting.behind, List.map_cons, scanFrom]
    rfl
  | case3 nesting pending position c s e hread =>
    have hread' := Lexeme.read_moved base hp c s
    rw [hread] at hread'
    rw [scanFrom_error hread']
    rfl
  | case4 nesting pending position c s decoded taken rest hread ih =>
    have hread' := Lexeme.read_moved base hp c s
    rw [hread] at hread'
    rw [scanFrom_text hread', ← Position.behind_after base hp]
    exact ih (hp.after _) (h.push position decoded)
  | case5 nesting pending position c s lexeme taken rest hnot hread e haccept =>
    have hread' := Lexeme.read_moved base hp c s
    rw [hread] at hread'
    have haccept' := accept_moved base nesting position lexeme
    rw [haccept] at haccept'
    rw [scanFrom_refused hread' haccept']
    rfl
  | case6 nesting pending position c s lexeme taken rest hnot hread kind next haccept ih =>
    have hread' := Lexeme.read_moved base hp c s
    rw [hread] at hread'
    have haccept' := accept_moved base nesting position lexeme
    rw [haccept] at haccept'
    have hnone : Pending.none.Moved base Pending.none := ⟨rfl, fun hne => absurd rfl hne⟩
    rw [scanFrom_accept hread' hnot haccept', ← Position.behind_after base hp,
      ih (hp.after _) hnone, Scan.behind_prepend, List.map_append, h.tokens]
    rfl

end Token

end TwoWaySql
