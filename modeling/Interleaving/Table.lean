import Interleaving.Ascending

/-!
# Tables of numbered things

A table files values under numbers.  Its entries are a list in ascending order
of the numbers, so two tables with the same values under the same numbers are
equal.  Every use of a table goes through the look-up `get?`: the statements
below say what it gives after each operation.
-/

namespace Interleaving

/-- Values filed under numbers, in ascending order of the numbers. -/
structure Table (α : Type) where
  entries : List (Nat × α)
  ascending : Ascending Prod.fst entries
deriving DecidableEq

namespace Table

variable {α : Type}

/-- The table without entries. -/
def empty : Table α := ⟨[], List.Pairwise.nil⟩

/-- Files `x` under `key`, in place of what was there. -/
def insert (t : Table α) (key : Nat) (x : α) : Table α :=
  ⟨insertBy Prod.fst (key, x) t.entries, ascending_insertBy _ t.ascending⟩

/-- The value filed under `key`. -/
def get? (t : Table α) (key : Nat) : Option α := t.entries.lookup key

/-- Files each pair; of several with one number the last stays. -/
def ofList (pairs : List (Nat × α)) : Table α :=
  pairs.foldl (fun t pair => t.insert pair.1 pair.2) empty

/-- The numbers in use, ascending. -/
def keys (t : Table α) : List Nat := t.entries.map Prod.fst

/-- The values, in ascending order of their numbers. -/
def values (t : Table α) : List α := t.entries.map Prod.snd

/-- How many entries there are. -/
def size (t : Table α) : Nat := t.entries.length

theorem lookup_cons_eq (key other : Nat) (x : α) (entries : List (Nat × α)) :
    ((key, x) :: entries).lookup other =
      if other = key then some x else entries.lookup other := by
  by_cases h : other = key
  · simp [h]
  · simp [List.lookup_cons, h, beq_false_of_ne h]

theorem lookup_insertBy (key other : Nat) (x : α) (entries : List (Nat × α)) :
    (insertBy Prod.fst (key, x) entries).lookup other =
      if other = key then some x else entries.lookup other := by
  induction entries with
  | nil => exact lookup_cons_eq key other x []
  | cons entry rest ih =>
    obtain ⟨k, y⟩ := entry
    unfold insertBy
    split
    case h_1 => exact lookup_cons_eq key other x _
    case h_2 heq =>
      have hkey : key = k := Std.LawfulEqCmp.eq_of_compare heq
      subst hkey
      by_cases h : other = key <;> simp [lookup_cons_eq, h]
    case h_3 hgt =>
      have hne : key ≠ k := by
        rintro rfl
        simp at hgt
      by_cases h : other = k
      · subst h
        simp [Ne.symm hne]
      · simp [lookup_cons_eq, h, ih]

/-- What is found after an insertion. -/
theorem get?_insert (t : Table α) (key other : Nat) (x : α) :
    (t.insert key x).get? other = if other = key then some x else t.get? other :=
  lookup_insertBy key other x t.entries

@[simp] theorem get?_empty (key : Nat) : (empty : Table α).get? key = none := rfl

@[simp] theorem get?_insert_self (t : Table α) (key : Nat) (x : α) :
    (t.insert key x).get? key = some x := by
  simp [get?_insert]

theorem get?_insert_of_ne (t : Table α) {key other : Nat} (x : α) (h : other ≠ key) :
    (t.insert key x).get? other = t.get? other := by
  simp [get?_insert, h]

end Table

end Interleaving
