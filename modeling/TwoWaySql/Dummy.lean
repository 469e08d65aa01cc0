import TwoWaySql.Error
import TwoWaySql.Text.Blank
import TwoWaySql.Text.Split

/-!
# Dummy values

A variable's comment is followed by a dummy value, which keeps the template runnable as it stands
and is left out of the statement: a literal in single quotes, a group in parentheses, or a run of
characters up to a blank, a comma, a parenthesis, a semicolon, a quote or a comment. A quote that is
written twice ends one literal and starts the next, so a literal ends at its first quote.
-/

namespace TwoWaySql

/-- A dummy value that was read: what it was and what follows it. -/
structure Dummy where
  /-- Whether the dummy was a group in parentheses. -/
  paren : Bool
  taken : List Char
  rest : List Char
  deriving DecidableEq, Repr

namespace Dummy

/-- Whether a run of plain characters ends before this text. -/
def endsRun : List Char → Bool
  | [] => true
  | '/' :: '*' :: _ => true
  | '-' :: '-' :: _ => true
  | c :: _ => Text.isBlank c || [',', '(', ')', ';', '\''].contains c

/-- A run of plain characters, and what follows it. -/
def skipRun : List Char → List Char × List Char
  | [] => ([], [])
  | c :: rest =>
    if endsRun (c :: rest) then ([], c :: rest)
    else
      let (taken, after) := skipRun rest
      (c :: taken, after)

/-- A group up to the parenthesis that closes it, and what follows it. `depth` parentheses are open,
and `quote` is where an open literal starts; parentheses inside a literal do not count. Where the
text ends first, the answer is the open literal, if there is one. -/
def skipGroup (depth : Nat) (quote : Option Position) (position : Position) :
    List Char → Except (Option Position) (List Char × List Char)
  | [] => .error quote
  | c :: rest =>
    let onwards (depth : Nat) (quote : Option Position) :=
      (skipGroup depth quote (position.next c) rest).map fun (taken, after) => (c :: taken, after)
    match quote with
    | some _ => onwards depth (if c = '\'' then none else quote)
    | none =>
      if c = '\'' then onwards depth (some position)
      else if c = '(' then onwards (depth + 1) none
      else if c = ')' then
        if depth ≤ 1 then .ok ([c], rest) else onwards (depth - 1) none
      else onwards depth none

/-- The dummy value at the start of a text. -/
def read (position : Position) (s : List Char) : Except Error Dummy :=
  match s with
  | '\'' :: rest =>
    match Text.cutThrough? '\'' rest with
    | some (taken, after) => .ok ⟨false, '\'' :: taken, after⟩
    | none => .error (.parse position .unterminatedString)
  | '(' :: _ =>
    match skipGroup 0 none position s with
    | .ok (taken, after) => .ok ⟨true, taken, after⟩
    | .error (some quote) => .error (.parse quote .unterminatedString)
    | .error none => .error (.parse position .unterminatedParen)
  | _ => .ok ⟨false, (skipRun s).1, (skipRun s).2⟩

theorem append_skipRun (s : List Char) : (skipRun s).1 ++ (skipRun s).2 = s := by
  induction s with
  | nil => rfl
  | cons c rest ih =>
    unfold skipRun
    split
    · rfl
    · simp [ih]

theorem append_of_skipGroup {depth : Nat} {quote : Option Position} {position : Position}
    {s taken after : List Char} (h : skipGroup depth quote position s = .ok (taken, after)) :
    taken ++ after = s := by
  induction s generalizing depth quote position taken with
  | nil => simp [skipGroup] at h
  | cons c rest ih =>
    have onwards {d : Nat} {q : Option Position}
        (hq : ((skipGroup d q (position.next c) rest).map fun (t, a) => (c :: t, a)) =
          .ok (taken, after)) : taken ++ after = c :: rest := by
      cases hr : skipGroup d q (position.next c) rest with
      | error e => simp [hr, Except.map] at hq
      | ok r =>
        obtain ⟨t, a⟩ := r
        simp only [hr, Except.map, Except.ok.injEq, Prod.mk.injEq] at hq
        obtain ⟨rfl, rfl⟩ := hq
        simp [ih hr]
    unfold skipGroup at h
    simp only at h
    split at h
    · exact onwards h
    · split at h
      · exact onwards h
      · split at h
        · exact onwards h
        · split at h
          · split at h
            · simp only [Except.ok.injEq, Prod.mk.injEq] at h
              simp [← h.1, h.2]
            · exact onwards h
          · exact onwards h

/-- A dummy and what follows it make up the text. -/
theorem append_of_read {position : Position} {s : List Char} {d : Dummy}
    (h : read position s = .ok d) : d.taken ++ d.rest = s := by
  unfold read at h
  split at h
  · split at h
    · next taken after hc =>
      simp only [Except.ok.injEq] at h
      subst h
      simp [Text.append_of_cutThrough? hc]
    · simp at h
  · split at h
    · next taken after hg =>
      simp only [Except.ok.injEq] at h
      subst h
      exact append_of_skipGroup hg
    · simp at h
    · simp at h
  · simp only [Except.ok.injEq] at h
    subst h
    exact append_skipRun s

end Dummy

end TwoWaySql
