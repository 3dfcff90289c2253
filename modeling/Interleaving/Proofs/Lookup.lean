import Interleaving.Table
import Mathlib.Data.List.Induction
import Mathlib.Data.List.Sort

/-!
# Tables as finite maps

A table is determined by its look-ups (`Table.ext_get?`), and the look-up after
each operation is known.  No later proof has to look at the entries themselves.
-/

namespace Interleaving

variable {α β κ : Type} [Ord κ] {key : α → κ}

/-- Two ascending lists with the same members are the same list. -/
theorem Ascending.eq_of_mem_iff [Std.TransOrd κ] {xs ys : List α}
    (hxs : Ascending key xs) (hys : Ascending key ys) (h : ∀ x, x ∈ xs ↔ x ∈ ys) : xs = ys := by
  have hirrefl : Std.Irrefl fun x y : α => compare (key x) (key y) = .lt :=
    ⟨fun x hlt => by simp at hlt⟩
  have hantisymm : Std.Antisymm fun x y : α => compare (key x) (key y) = .lt :=
    ⟨fun x y hlt hlt' => by
      have hgt := Std.OrientedCmp.gt_of_lt hlt
      rw [hlt'] at hgt
      cases hgt⟩
  exact List.Pairwise.eq_of_mem_iff hxs hys h

theorem ascendingBy_append_singleton (xs : List α) (x : α) :
    ascendingBy key (xs ++ [x]) = insertBy key x (ascendingBy key xs) := by
  simp [ascendingBy]

/-- An insertion keeps all that was there, unless something else has the key of the new one. -/
theorem mem_insertBy_iff [Std.LawfulEqOrd κ] {x z : α} {xs : List α}
    (h : ∀ y ∈ xs, key y = key x → y = x) : z ∈ insertBy key x xs ↔ z = x ∨ z ∈ xs := by
  induction xs with
  | nil => simp [insertBy]
  | cons y rest ih =>
      have hrest : ∀ y ∈ rest, key y = key x → y = x := fun y hy =>
        h y (List.mem_cons_of_mem _ hy)
      unfold insertBy
      split
      case h_1 => rw [List.mem_cons]
      case h_2 heq =>
        have hkey : key x = key y := Std.LawfulEqCmp.eq_of_compare heq
        obtain rfl := h y List.mem_cons_self hkey.symm
        simp
      case h_3 =>
        rw [List.mem_cons, List.mem_cons, ih hrest]
        exact or_left_comm

/-- Listing elements drops none of them if those with the same key are equal. -/
theorem mem_ascendingBy_iff [Std.LawfulEqOrd κ] {xs : List α}
    (h : ∀ ⦃x⦄, x ∈ xs → ∀ ⦃y⦄, y ∈ xs → key x = key y → x = y) {z : α} :
    z ∈ ascendingBy key xs ↔ z ∈ xs := by
  induction xs using List.reverseRecOn generalizing z with
  | nil => rfl
  | append_singleton xs x ih =>
      have hxs : ∀ {z}, z ∈ ascendingBy key xs ↔ z ∈ xs := ih fun y hy y' hy' =>
        h (List.mem_append_left _ hy) (List.mem_append_left _ hy')
      have hx : ∀ y ∈ ascendingBy key xs, key y = key x → y = x := fun y hy =>
        h (List.mem_append_left _ (hxs.1 hy)) (List.mem_append_right _ (List.mem_singleton_self x))
      rw [ascendingBy_append_singleton, mem_insertBy_iff hx, hxs, List.mem_append,
        List.mem_singleton]
      exact or_comm

theorem pairwise_lt_ascendingBy (ns : List Nat) : (ascendingBy id ns).Pairwise (· < ·) := by
  have hascending : Ascending id (ascendingBy id ns) := ascending_ascendingBy ns
  exact hascending.imp fun h => Nat.compare_eq_lt.1 h

/-- What a search finds first in an ascending list has the least number. -/
theorem Ascending.find?_eq_some_iff {key : α → Nat} {xs : List α} (h : Ascending key xs)
    {p : α → Bool} {x : α} : xs.find? p = some x ↔
      x ∈ xs ∧ p x = true ∧ ∀ y ∈ xs, key y < key x → p y = false := by
  induction xs with
  | nil => simp
  | cons first rest ih =>
      obtain ⟨hfirst, hrest⟩ := List.pairwise_cons.1 h
      have hlt : ∀ y ∈ rest, key first < key y := fun y hy => Nat.compare_eq_lt.1 (hfirst y hy)
      rw [List.find?_cons]
      cases hp : p first with
      | true =>
          constructor
          · intro heq
            obtain rfl := Option.some.inj heq
            refine ⟨List.mem_cons_self, hp, fun y hy hyx => ?_⟩
            rcases List.mem_cons.1 hy with rfl | hy
            · omega
            · have hxy := hlt y hy
              omega
          · rintro ⟨hx, -, hbefore⟩
            rcases List.mem_cons.1 hx with rfl | hx
            · rfl
            · -- The first element would have to fail, since its number is less.
              rw [hbefore first List.mem_cons_self (hlt x hx)] at hp
              cases hp
      | false =>
          show rest.find? p = some x ↔ _
          rw [ih hrest]
          constructor
          · rintro ⟨hx, hpx, hbefore⟩
            refine ⟨List.mem_cons_of_mem _ hx, hpx, fun y hy hyx => ?_⟩
            rcases List.mem_cons.1 hy with rfl | hy
            · exact hp
            · exact hbefore y hy hyx
          · rintro ⟨hx, hpx, hbefore⟩
            refine ⟨?_, hpx, fun y hy hyx => hbefore y (List.mem_cons_of_mem _ hy) hyx⟩
            rcases List.mem_cons.1 hx with rfl | hx
            · rw [hp] at hpx
              cases hpx
            · exact hx

/-- An ascending list starts with its least number. -/
theorem Ascending.head?_eq_some_iff {key : α → Nat} {xs : List α} (h : Ascending key xs) {x : α} :
    xs.head? = some x ↔ x ∈ xs ∧ ∀ y ∈ xs, key x ≤ key y := by
  have hfind : xs.head? = xs.find? fun _ => true := by cases xs <;> rfl
  rw [hfind, h.find?_eq_some_iff]
  simp

namespace Table

/-- An entry is what its number looks up. -/
theorem mem_entries_iff (t : Table α) (key : Nat) (x : α) :
    (key, x) ∈ t.entries ↔ t.get? key = some x := by
  obtain ⟨entries, hascending⟩ := t
  show (key, x) ∈ entries ↔ entries.lookup key = some x
  induction entries with
  | nil => simp
  | cons entry rest ih =>
      obtain ⟨k, y⟩ := entry
      obtain ⟨hfirst, hrest⟩ := List.pairwise_cons.1 hascending
      rw [lookup_cons_eq, List.mem_cons]
      by_cases hkey : key = k
      · subst hkey
        -- The numbers behind the first one are larger, so it files one value only.
        have hnotRest : (key, x) ∉ rest := fun hmem => by
          have hlt := hfirst _ hmem
          simp at hlt
        simp [hnotRest, eq_comm]
      · simp [hkey, ih hrest]

theorem mem_values_iff (t : Table α) (x : α) : x ∈ t.values ↔ ∃ key, t.get? key = some x := by
  simp only [values, List.mem_map, Prod.exists, exists_eq_right, mem_entries_iff]

/-- Tables with the same look-ups are equal. -/
theorem ext_get? {t u : Table α} (h : ∀ key, t.get? key = u.get? key) : t = u := by
  have hentries : t.entries = u.entries :=
    t.ascending.eq_of_mem_iff u.ascending fun (key, x) => by
      rw [mem_entries_iff, mem_entries_iff, h]
  cases t
  cases u
  cases hentries
  rfl

/-- The table with `f` applied to every value. -/
def map (f : α → β) (t : Table α) : Table β :=
  ⟨t.entries.map fun entry => (entry.1, f entry.2), by
    unfold Ascending
    rw [List.pairwise_map]
    exact t.ascending⟩

@[simp] theorem get?_map (f : α → β) (t : Table α) (key : Nat) :
    (t.map f).get? key = (t.get? key).map f := by
  obtain ⟨entries, hascending⟩ := t
  show (entries.map _).lookup key = (entries.lookup key).map f
  clear hascending
  induction entries with
  | nil => rfl
  | cons entry rest ih =>
      rw [List.map_cons, lookup_cons_eq, lookup_cons_eq, ih]
      by_cases hkey : key = entry.1 <;> simp [hkey]

@[simp] theorem values_map (f : α → β) (t : Table α) : (t.map f).values = t.values.map f := by
  unfold values map
  rw [List.map_map, List.map_map]
  rfl

theorem map_insert (f : α → β) (t : Table α) (key : Nat) (x : α) :
    (t.insert key x).map f = (t.map f).insert key (f x) := by
  apply ext_get?
  intro other
  by_cases hother : other = key <;> simp [get?_insert, hother]

/-- The entries whose number satisfies `p`. -/
def filter (p : Nat → Bool) (t : Table α) : Table α :=
  ⟨t.entries.filter fun entry => p entry.1, t.ascending.filter _⟩

theorem get?_filter (p : Nat → Bool) (t : Table α) (key : Nat) :
    (t.filter p).get? key = if p key = true then t.get? key else none := by
  ext x
  rw [← mem_entries_iff]
  show (key, x) ∈ t.entries.filter _ ↔ _
  rw [List.mem_filter, mem_entries_iff]
  by_cases hkey : p key = true <;> simp [hkey]

/-- A new entry is kept or dropped by its number. -/
theorem filter_insert (p : Nat → Bool) (t : Table α) (key : Nat) (x : α) :
    (t.insert key x).filter p = if p key = true then (t.filter p).insert key x else t.filter p := by
  apply ext_get?
  intro other
  by_cases hother : other = key
  · subst hother
    by_cases hkey : p other = true <;> simp [get?_filter, hkey]
  · by_cases hkey : p key = true <;> simp [get?_filter, get?_insert, hother, hkey]

theorem nodup_keys (t : Table α) : t.keys.Nodup := by
  unfold List.Nodup keys
  rw [List.pairwise_map]
  refine t.ascending.imp fun {entry entry'} hlt heq => ?_
  rw [heq] at hlt
  simp at hlt

theorem mem_keys_iff (t : Table α) (key : Nat) : key ∈ t.keys ↔ ∃ x, t.get? key = some x := by
  simp only [keys, List.mem_map, Prod.exists, exists_and_right, exists_eq_right, mem_entries_iff]

theorem ascending_keys (t : Table α) : Ascending id t.keys := by
  unfold Ascending keys
  rw [List.pairwise_map]
  exact t.ascending

/-- A new value under a number in use leaves the numbers in use as they are. -/
theorem keys_insert (t : Table α) {key : Nat} {old : α} (x : α) (h : t.get? key = some old) :
    (t.insert key x).keys = t.keys := by
  refine (ascending_keys _).eq_of_mem_iff t.ascending_keys fun other => ?_
  rw [mem_keys_iff, mem_keys_iff, get?_insert]
  by_cases hother : other = key
  · subst hother
    simp [h]
  · simp [hother]

theorem ofList_append_singleton (pairs : List (Nat × α)) (pair : Nat × α) :
    ofList (pairs ++ [pair]) = (ofList pairs).insert pair.1 pair.2 := by
  simp [ofList]

/-- A table made from pairs looks up the last pair with a number. -/
theorem get?_ofList (pairs : List (Nat × α)) (key : Nat) :
    (ofList pairs).get? key = pairs.reverse.lookup key := by
  -- Induction on the last pair, which is the one that is inserted last.
  induction pairs using List.reverseRecOn with
  | nil => rfl
  | append_singleton pairs pair ih =>
      rw [ofList_append_singleton, get?_insert, ih, List.reverse_append, List.reverse_singleton,
        List.singleton_append, lookup_cons_eq]

theorem map_ofList (f : α → β) (pairs : List (Nat × α)) :
    (ofList pairs).map f = ofList (pairs.map fun pair => (pair.1, f pair.2)) := by
  induction pairs using List.reverseRecOn with
  | nil => rfl
  | append_singleton pairs pair ih =>
      rw [ofList_append_singleton, List.map_append, List.map_singleton, ofList_append_singleton,
        map_insert, ih]

theorem mem_of_get?_ofList {pairs : List (Nat × α)} {key : Nat} {x : α}
    (h : (ofList pairs).get? key = some x) : (key, x) ∈ pairs := by
  rw [get?_ofList] at h
  obtain ⟨before, after, hsplit, -⟩ := List.lookup_eq_some_iff.1 h
  rw [← List.mem_reverse, hsplit]
  simp

theorem exists_get?_ofList {pairs : List (Nat × α)} {key : Nat} (h : key ∈ pairs.map Prod.fst) :
    ∃ x, (ofList pairs).get? key = some x := by
  rw [get?_ofList, ← Option.ne_none_iff_exists', Ne, List.lookup_eq_none_iff]
  obtain ⟨pair, hpair, rfl⟩ := List.mem_map.1 h
  intro hnone
  have hne := hnone pair (List.mem_reverse.2 hpair)
  simp at hne

/-- A table made from pairs with different numbers looks up all of them. -/
theorem get?_ofList_eq_some_iff {pairs : List (Nat × α)} (h : (pairs.map Prod.fst).Nodup)
    {key : Nat} {x : α} : (ofList pairs).get? key = some x ↔ (key, x) ∈ pairs := by
  refine ⟨mem_of_get?_ofList, fun hmem => ?_⟩
  obtain ⟨y, hy⟩ := exists_get?_ofList (List.mem_map_of_mem (f := Prod.fst) hmem)
  have heq := List.inj_on_of_nodup_map h (mem_of_get?_ofList hy) hmem rfl
  rw [hy, (Prod.mk.injEq ..).mp heq |>.2]

/-- Pairs with different numbers make one table, in whatever order they are listed. -/
theorem ofList_eq_of_perm {pairs pairs' : List (Nat × α)} (hperm : pairs.Perm pairs')
    (h : (pairs.map Prod.fst).Nodup) : ofList pairs = ofList pairs' := by
  apply ext_get?
  intro key
  ext x
  rw [get?_ofList_eq_some_iff h, get?_ofList_eq_some_iff ((hperm.map Prod.fst).nodup_iff.1 h),
    hperm.mem_iff]

/-- A table is made of its entries. -/
theorem ofList_entries (t : Table α) : ofList t.entries = t := by
  apply ext_get?
  intro key
  ext x
  rw [get?_ofList_eq_some_iff t.nodup_keys, mem_entries_iff]

/-! ### Values filed under their own numbers -/

section Filing

variable {xs : List α} {number : α → Nat} {key : Nat} {x : α}

theorem mem_of_get?_ofList_map
    (h : (ofList (xs.map fun x => (number x, x))).get? key = some x) :
    x ∈ xs ∧ number x = key := by
  obtain ⟨y, hy, heq⟩ := List.mem_map.1 (mem_of_get?_ofList h)
  cases heq
  exact ⟨hy, rfl⟩

theorem exists_get?_ofList_map (h : key ∈ xs.map number) :
    ∃ x, (ofList (xs.map fun x => (number x, x))).get? key = some x := by
  apply exists_get?_ofList
  rw [List.map_map]
  exact h

/-- Values with different numbers are all found, and nothing else is. -/
theorem get?_ofList_map_eq_some_iff (h : (xs.map number).Nodup) :
    (ofList (xs.map fun x => (number x, x))).get? key = some x ↔ x ∈ xs ∧ number x = key := by
  refine ⟨mem_of_get?_ofList_map, ?_⟩
  rintro ⟨hx, rfl⟩
  refine (get?_ofList_eq_some_iff ?_).2 (List.mem_map_of_mem hx)
  rw [List.map_map]
  exact h

end Filing

/-! ### Values that know their numbers -/

section Numbered

variable {t : Table α} {number : α → Nat} (h : ∀ {key x}, t.get? key = some x → number x = key)
include h

theorem get?_number_iff_mem_values {x : α} : t.get? (number x) = some x ↔ x ∈ t.values := by
  rw [mem_values_iff]
  constructor
  · exact fun hx => ⟨number x, hx⟩
  · rintro ⟨key, hx⟩
    rwa [h hx]

theorem map_values_eq_keys : t.values.map number = t.keys := by
  unfold values keys
  rw [List.map_map]
  refine List.map_congr_left fun (key, x) hmem => ?_
  exact h ((mem_entries_iff t key x).1 hmem)

theorem values_filter (p : Nat → Bool) :
    (t.filter p).values = t.values.filter fun x => p (number x) := by
  unfold values
  rw [List.filter_map]
  congr 1
  refine List.filter_congr fun (key, x) hmem => ?_
  show p key = p (number x)
  rw [h ((mem_entries_iff t key x).1 hmem)]

theorem mem_map_values_iff {f : α → β} {key : Nat} {y : β} :
    (key, y) ∈ t.values.map (fun x => (number x, f x)) ↔ (t.get? key).map f = some y := by
  rw [List.mem_map, Option.map_eq_some_iff]
  constructor
  · rintro ⟨x, hx, heq⟩
    cases heq
    exact ⟨x, (get?_number_iff_mem_values h).2 hx, rfl⟩
  · rintro ⟨x, hx, rfl⟩
    have hkey := h hx
    subst hkey
    exact ⟨x, (get?_number_iff_mem_values h).1 hx, rfl⟩

/-- A comparison of the values side by side compares what each number looks up. -/
theorem map_get?_eq_of_map_values_eq {u : Table α}
    (hu : ∀ {key x}, u.get? key = some x → number x = key) {f : α → β}
    (heq : t.values.map (fun x => (number x, f x)) = u.values.map fun x => (number x, f x))
    (key : Nat) : (t.get? key).map f = (u.get? key).map f := by
  ext y
  rw [← mem_map_values_iff h, heq, mem_map_values_iff hu]

/-- A table is made of its own values. -/
theorem ofList_values : ofList (t.values.map fun x => (number x, x)) = t := by
  have hentries : t.values.map (fun x => (number x, x)) = t.entries := by
    unfold values
    rw [List.map_map]
    refine (List.map_congr_left fun (key, x) hmem => ?_).trans (List.map_id _)
    exact Prod.ext (h ((mem_entries_iff t key x).1 hmem)) rfl
  rw [hentries, ofList_entries]

end Numbered

end Table

end Interleaving
