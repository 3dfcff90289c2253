/-!
# Lists that ascend by a key

A list is kept strictly ascending by a key of its elements, so that it holds at
most one element for each key.  `insertBy` is the one operation that builds
such lists; an element that comes later takes the place of an earlier one with
the same key.  The main statements say that insertion keeps a list ascending
and which elements it then has.
-/

namespace Interleaving

variable {α κ : Type} [Ord κ] {key : α → κ}

/-- A list whose keys strictly ascend. -/
def Ascending (key : α → κ) (xs : List α) : Prop :=
  xs.Pairwise fun x y => compare (key x) (key y) = .lt

instance (key : α → κ) (xs : List α) : Decidable (Ascending key xs) :=
  inferInstanceAs (Decidable (xs.Pairwise _))

/-- Puts `x` at its place by `key`; an element with the same key gives way to
it. -/
def insertBy (key : α → κ) (x : α) : List α → List α
  | [] => [x]
  | y :: rest =>
    match compare (key x) (key y) with
    | .lt => x :: y :: rest
    | .eq => x :: rest
    | .gt => y :: insertBy key x rest

/-- The elements of a list, one for each key, ascending; of several elements
with one key the last stays. -/
def ascendingBy (key : α → κ) (xs : List α) : List α :=
  xs.foldl (fun sorted x => insertBy key x sorted) []

/-- Whatever an insertion holds is the new element or was there before. -/
theorem mem_of_mem_insertBy {x z : α} {xs : List α} (h : z ∈ insertBy key x xs) :
    z = x ∨ z ∈ xs := by
  induction xs with
  | nil => simpa [insertBy] using h
  | cons y rest ih =>
    unfold insertBy at h
    split at h
    · simpa using h
    · rcases List.mem_cons.1 h with rfl | hz
      · exact .inl rfl
      · exact .inr (List.mem_cons_of_mem _ hz)
    · rcases List.mem_cons.1 h with rfl | hz
      · exact .inr List.mem_cons_self
      · exact (ih hz).imp_right (List.mem_cons_of_mem _)

/-- Insertion keeps a list ascending. -/
theorem ascending_insertBy [Std.TransOrd κ] [Std.LawfulEqOrd κ] (x : α) {xs : List α}
    (h : Ascending key xs) : Ascending key (insertBy key x xs) := by
  induction xs with
  | nil => simp [insertBy, Ascending]
  | cons y rest ih =>
    obtain ⟨hy, hrest⟩ := List.pairwise_cons.1 h
    unfold insertBy
    split
    case h_1 hlt =>
      refine List.pairwise_cons.2 ⟨fun z hz => ?_, h⟩
      rcases List.mem_cons.1 hz with rfl | hz
      · exact hlt
      · exact Std.TransCmp.lt_trans hlt (hy z hz)
    case h_2 heq =>
      have hkey : key x = key y := Std.LawfulEqCmp.eq_of_compare heq
      exact List.pairwise_cons.2 ⟨fun z hz => hkey ▸ hy z hz, hrest⟩
    case h_3 hgt =>
      refine List.pairwise_cons.2 ⟨fun z hz => ?_, ih hrest⟩
      rcases mem_of_mem_insertBy hz with rfl | hz
      · exact Std.OrientedCmp.lt_of_gt hgt
      · exact hy z hz

/-- The listing by a key is ascending. -/
theorem ascending_ascendingBy [Std.TransOrd κ] [Std.LawfulEqOrd κ] (xs : List α) :
    Ascending key (ascendingBy key xs) := by
  suffices h : ∀ sorted : List α, Ascending key sorted →
      Ascending key (xs.foldl (fun sorted x => insertBy key x sorted) sorted) from
    h [] List.Pairwise.nil
  induction xs with
  | nil => exact fun _ h => h
  | cons x rest ih => exact fun sorted h => ih _ (ascending_insertBy x h)

end Interleaving
