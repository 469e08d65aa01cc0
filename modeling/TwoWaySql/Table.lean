/-!
# Tables sorted by key

A table is a list of entries in strictly ascending order of their keys, so that equal contents are
equal tables and enumerating a table is enumerating its list. `get?_insert` and `get?_erase` say
what the two operations do to every key.
-/

namespace TwoWaySql

/-- Entries in strictly ascending order of their keys. -/
def Ascending {κ α : Type} [Ord κ] (entries : List (κ × α)) : Prop :=
  entries.Pairwise fun a b => compare a.1 b.1 = .lt

namespace Entries

variable {κ α : Type} [Ord κ]

/-- The value of the first entry with the given key. -/
def find? (k : κ) : List (κ × α) → Option α
  | [] => none
  | (l, v) :: rest => if compare k l = .eq then some v else find? k rest

/-- The entries with the value `v` at the key `k`, in place of one it may have had. -/
def insert (k : κ) (v : α) : List (κ × α) → List (κ × α)
  | [] => [(k, v)]
  | (l, w) :: rest =>
    match compare k l with
    | .lt => (k, v) :: (l, w) :: rest
    | .eq => (k, v) :: rest
    | .gt => (l, w) :: insert k v rest

def erase (k : κ) (entries : List (κ × α)) : List (κ × α) :=
  entries.filter fun e => compare k e.1 != .eq

/-- The entries inserted one after the other: of several with one key the last one stays. -/
def sort (entries : List (κ × α)) : List (κ × α) :=
  entries.foldl (fun sorted e => insert e.1 e.2 sorted) []

theorem mem_insert {k : κ} {v : α} {entries : List (κ × α)} {e : κ × α}
    (h : e ∈ insert k v entries) : e = (k, v) ∨ e ∈ entries := by
  induction entries with
  | nil => simp_all [insert]
  | cons hd rest ih =>
    obtain ⟨l, w⟩ := hd
    unfold insert at h
    split at h
    · simpa using h
    · rcases List.mem_cons.1 h with h | h
      · exact .inl h
      · exact .inr (List.mem_cons_of_mem _ h)
    · rcases List.mem_cons.1 h with h | h
      · exact .inr (h ▸ List.mem_cons_self)
      · rcases ih h with h | h
        · exact .inl h
        · exact .inr (List.mem_cons_of_mem _ h)

theorem ascending_erase (k : κ) {entries : List (κ × α)} (h : Ascending entries) :
    Ascending (erase k entries) :=
  h.filter _

variable [Std.TransOrd κ] [Std.LawfulEqOrd κ]

theorem ascending_insert (k : κ) (v : α) {entries : List (κ × α)} (h : Ascending entries) :
    Ascending (insert k v entries) := by
  induction entries with
  | nil => simp [insert, Ascending]
  | cons hd rest ih =>
    obtain ⟨l, w⟩ := hd
    obtain ⟨hl, hr⟩ := List.pairwise_cons.1 h
    unfold insert
    split
    · next hk =>
      refine List.pairwise_cons.2 ⟨fun e he => ?_, h⟩
      rcases List.mem_cons.1 he with he | he
      · simpa [he] using hk
      · exact Std.TransCmp.lt_trans hk (hl e he)
    · next hk =>
      have hkl : k = l := Std.LawfulEqCmp.eq_of_compare hk
      exact List.pairwise_cons.2 ⟨fun e he => by simpa [hkl] using hl e he, hr⟩
    · next hk =>
      refine List.pairwise_cons.2 ⟨fun e he => ?_, ih hr⟩
      rcases mem_insert he with he | he
      · simpa [he] using Std.OrientedCmp.gt_iff_lt.1 hk
      · exact hl e he

omit [Std.TransOrd κ] in
/-- Inserting changes the value at the inserted key only. -/
theorem find?_insert [DecidableEq κ] (k l : κ) (v : α) (entries : List (κ × α)) :
    find? l (insert k v entries) = if l = k then some v else find? l entries := by
  induction entries with
  | nil => simp [insert, find?, Std.LawfulEqCmp.compare_eq_iff_eq]
  | cons hd rest ih =>
    obtain ⟨m, w⟩ := hd
    unfold insert
    split
    · simp [find?, Std.LawfulEqCmp.compare_eq_iff_eq]
    · next hk =>
      have hkm : k = m := Std.LawfulEqCmp.eq_of_compare hk
      subst hkm
      simp only [find?, Std.LawfulEqCmp.compare_eq_iff_eq]
      split <;> rfl
    · next hk =>
      have hne : k ≠ m := by rintro rfl; simp at hk
      simp only [find?, Std.LawfulEqCmp.compare_eq_iff_eq, ih]
      by_cases hm : l = m
      · subst hm; simp [Ne.symm hne]
      · simp [hm]

omit [Std.TransOrd κ] in
/-- Erasing changes the value at the erased key only. -/
theorem find?_erase [DecidableEq κ] (k l : κ) (entries : List (κ × α)) :
    find? l (erase k entries) = if l = k then none else find? l entries := by
  induction entries with
  | nil => simp [erase, find?]
  | cons hd rest ih =>
    obtain ⟨m, w⟩ := hd
    have ih' : find? l (rest.filter fun e => compare k e.1 != .eq) =
        if l = k then none else find? l rest := ih
    simp only [erase, List.filter_cons]
    by_cases hkm : k = m
    · subst hkm
      by_cases hl : l = k
      · subst hl; simpa using ih'
      · simp [find?, Std.LawfulEqCmp.compare_eq_iff_eq, ih', hl]
    · have hne : (compare k m != .eq) = true := by
        simpa [Std.LawfulEqCmp.compare_eq_iff_eq] using hkm
      simp only [hne, if_true, find?, Std.LawfulEqCmp.compare_eq_iff_eq, ih']
      by_cases hl : l = m
      · subst hl; simp [Ne.symm hkm]
      · simp [hl]

end Entries

/-- A finite map as the list of its entries in ascending order of the keys. -/
structure Table (κ α : Type) [Ord κ] where
  entries : List (κ × α)
  ascending : Ascending entries

namespace Table

variable {κ α : Type} [Ord κ]

def empty : Table κ α := ⟨[], List.Pairwise.nil⟩

instance : Inhabited (Table κ α) := ⟨empty⟩

instance [BEq κ] [BEq α] : BEq (Table κ α) := ⟨fun s t => s.entries == t.entries⟩

def get? (t : Table κ α) (k : κ) : Option α := Entries.find? k t.entries

def contains (t : Table κ α) (k : κ) : Bool := (t.get? k).isSome

def size (t : Table κ α) : Nat := t.entries.length

def isEmpty (t : Table κ α) : Bool := t.entries.isEmpty

def erase (t : Table κ α) (k : κ) : Table κ α :=
  ⟨Entries.erase k t.entries, Entries.ascending_erase k t.ascending⟩

def insert [Std.TransOrd κ] [Std.LawfulEqOrd κ] (t : Table κ α) (k : κ) (v : α) : Table κ α :=
  ⟨Entries.insert k v t.entries, Entries.ascending_insert k v t.ascending⟩

/-- The table with the given entries: of several with one key the last one stays. -/
def ofList [Std.TransOrd κ] [Std.LawfulEqOrd κ] (entries : List (κ × α)) : Table κ α :=
  entries.foldl (fun t e => t.insert e.1 e.2) empty

theorem get?_insert [Std.TransOrd κ] [Std.LawfulEqOrd κ] [DecidableEq κ] (t : Table κ α) (k l : κ)
    (v : α) : (t.insert k v).get? l = if l = k then some v else t.get? l :=
  Entries.find?_insert k l v t.entries

theorem get?_erase [Std.LawfulEqOrd κ] [DecidableEq κ] (t : Table κ α) (k l : κ) :
    (t.erase k).get? l = if l = k then none else t.get? l :=
  Entries.find?_erase k l t.entries

end Table

end TwoWaySql
