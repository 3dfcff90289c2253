import Interleaving.Trace
import Mathlib.Data.List.Nodup
import Mathlib.Data.List.Perm.Subperm
import Mathlib.Data.Set.Insert
import Mathlib.Logic.Relation

/-!
# Equivalence of traces by swaps

`Trace.isEquivalent` compares the places of all dependent pairs at once.  The
same relation is generated by single steps: two traces are equivalent iff one is
turned into the other by swapping neighbours that do not depend on each other
(`Trace.isEquivalent_iff_exists_swaps`).  On traces that agree on what their
transitions do it is an equivalence relation.
-/

namespace Interleaving

namespace Trace

/-- Where the transition with a label stands in a trace. -/
def place (w : Trace) (l : Label) : Nat := w.labels.idxOf l

@[simp] theorem length_labels (w : Trace) : w.labels.length = w.length := List.length_map ..

theorem label_mem_labels {w : Trace} {t : Transition} (h : t ∈ w) : t.label ∈ w.labels :=
  List.mem_map_of_mem h

theorem place_inj {w : Trace} {l l' : Label} (h : l ∈ w.labels) :
    w.place l = w.place l' ↔ l = l' :=
  List.idxOf_inj h

/-! ### The check in terms of places -/

theorem idxOf?_eq_ite (labels : List Label) (l : Label) :
    labels.idxOf? l = if l ∈ labels then some (labels.idxOf l) else none := by
  induction labels with
  | nil => rfl
  | cons first rest ih =>
      rw [List.idxOf?_cons, List.idxOf_cons, ih]
      by_cases hfirst : first = l
      · simp [hfirst]
      · have hne : ¬ l = first := fun heq => hfirst heq.symm
        by_cases hrest : l ∈ rest <;> simp [beq_false_of_ne hfirst, hne, hrest]

/-- The places are found iff every transition occurs in the other trace. -/
theorem places?_eq_some_iff {w w' : Trace} {places : List Nat} :
    w.places? w' = some places ↔
      (∀ t ∈ w, t.label ∈ w'.labels) ∧ places = w.map fun t => w'.place t.label := by
  unfold places?
  induction w generalizing places with
  | nil => simp [eq_comm]
  | cons t w ih =>
      rw [List.mapM_cons, idxOf?_eq_ite]
      by_cases ht : t.label ∈ w'.labels
      · simp only [ht, if_true, Option.bind_eq_bind, Option.bind_some, Option.pure_def,
          Option.bind_eq_some_iff, Option.some.injEq, ih, List.forall_mem_cons, true_and,
          List.map_cons]
        constructor
        · rintro ⟨_, ⟨hw, rfl⟩, rfl⟩
          exact ⟨hw, rfl⟩
        · rintro ⟨hw, rfl⟩
          exact ⟨_, ⟨hw, rfl⟩, rfl⟩
      · simp [ht]

theorem nodup_map_place_iff {w w' : Trace} (h : ∀ t ∈ w, t.label ∈ w'.labels) :
    (w.map fun t => w'.place t.label).Nodup ↔ w.labels.Nodup := by
  unfold List.Nodup labels
  rw [List.pairwise_map, List.pairwise_map]
  apply List.Pairwise.iff_of_mem
  intro t u ht _
  rw [Ne, place_inj (h t ht)]

/-- Equivalence: no transition is repeated, both traces have the same ones, and
the places of dependent transitions ascend. -/
theorem isEquivalent_iff (w w' : Trace) :
    w.isEquivalent w' = true ↔ w.labels.Nodup ∧ w.labels.Perm w'.labels ∧
      w.Pairwise fun t u => t.dependsOn u = true → w'.place t.label ≤ w'.place u.label := by
  unfold isEquivalent
  cases hplaces : w.places? w' with
  | none =>
      simp only [Bool.and_false, Bool.false_eq_true, false_iff]
      rintro ⟨-, hperm, -⟩
      have hsome := places?_eq_some_iff.2
        ⟨fun t ht => hperm.subset (label_mem_labels ht), rfl⟩
      rw [hplaces] at hsome
      cases hsome
  | some places =>
      obtain ⟨hmem, rfl⟩ := places?_eq_some_iff.1 hplaces
      simp only [Bool.and_eq_true, decide_eq_true_eq, nodup_map_place_iff hmem]
      rw [← List.map_prod_left_eq_zip, List.pairwise_map]
      constructor
      · rintro ⟨⟨hlength, -⟩, hnodup, hordered⟩
        have hsubset : w.labels ⊆ w'.labels := by
          intro l hl
          obtain ⟨t, ht, rfl⟩ := List.mem_map.1 hl
          exact hmem t ht
        have hperm := (List.subperm_of_subset hnodup hsubset).perm_of_length_le (by simp [hlength])
        exact ⟨hnodup, hperm, hordered⟩
      · rintro ⟨hnodup, hperm, hordered⟩
        have hlength := hperm.length_eq
        rw [length_labels, length_labels] at hlength
        exact ⟨⟨hlength, hperm.nodup_iff.1 hnodup⟩, hnodup, hordered⟩

/-! ### Swaps -/

/-- Two neighbours that do not depend on each other change places. -/
inductive Swap : Trace → Trace → Prop
  | swap (before : Trace) (t u : Transition) (rest : Trace) (h : t.dependsOn u = false) :
      Swap (before ++ t :: u :: rest) (before ++ u :: t :: rest)

/-- A trace is turned into another one by finitely many swaps. -/
abbrev Swaps : Trace → Trace → Prop := Relation.ReflTransGen Swap

theorem Swap.perm {w w' : Trace} (h : Swap w w') : w.Perm w' := by
  cases h with
  | swap before t u rest _ => exact List.Perm.append_left before (List.Perm.swap u t rest)

theorem Swaps.perm {w w' : Trace} (h : Swaps w w') : w.Perm w' := by
  induction h with
  | refl => exact List.Perm.refl w
  | tail _ hswap ih => exact ih.trans hswap.perm

theorem Swaps.cons (t : Transition) {w w' : Trace} (h : Swaps w w') :
    Swaps (t :: w) (t :: w') := by
  induction h with
  | refl => exact .refl
  | tail _ hswap ih =>
      cases hswap with
      | swap before u v rest hindependent =>
          exact ih.tail (.swap (t :: before) u v rest hindependent)

/-- A transition moves to the front past others that do not depend on it. -/
theorem swaps_to_front {before : Trace} {t : Transition} (rest : Trace)
    (h : ∀ u ∈ before, u.dependsOn t = false) :
    Swaps (before ++ t :: rest) (t :: (before ++ rest)) := by
  induction before with
  | nil => exact .refl
  | cons u before ih =>
      have hrest : Swaps (u :: (before ++ t :: rest)) (u :: t :: (before ++ rest)) :=
        (ih fun v hv => h v (List.mem_cons_of_mem u hv)).cons u
      exact hrest.tail (.swap [] u t (before ++ rest) (h u List.mem_cons_self))

/-- A relation between dependent transitions and later ones is not touched by a
swap. -/
theorem Swap.pairwise {w w' : Trace} (h : Swap w w') {R : Transition → Transition → Prop}
    (hordered : w'.Pairwise fun t u => t.dependsOn u = true → R t u) :
    w.Pairwise fun t u => t.dependsOn u = true → R t u := by
  cases h with
  | swap before t u rest hindependent =>
      simp only [List.pairwise_append, List.pairwise_cons, List.forall_mem_cons] at hordered ⊢
      obtain ⟨hbefore, ⟨⟨-, hu⟩, ht, hrest⟩, hcross⟩ := hordered
      refine ⟨hbefore, ⟨⟨fun hdepends => ?_, ht⟩, hu, hrest⟩, fun v hv => ?_⟩
      · rw [hindependent] at hdepends
        cases hdepends
      · obtain ⟨hvu, hvt, hvrest⟩ := hcross v hv
        exact ⟨hvt, hvu, hvrest⟩

theorem Swaps.pairwise {w w' : Trace} (h : Swaps w w') {R : Transition → Transition → Prop}
    (hordered : w'.Pairwise fun t u => t.dependsOn u = true → R t u) :
    w.Pairwise fun t u => t.dependsOn u = true → R t u := by
  induction h with
  | refl => exact hordered
  | tail _ hswap ih => exact ih (hswap.pairwise hordered)

theorem pairwise_place {w : Trace} (h : w.labels.Nodup) :
    w.Pairwise fun t u => w.place t.label < w.place u.label := by
  rw [List.pairwise_iff_getElem]
  intro i j hi hj hlt
  have hplace : ∀ (k : Nat) (hk : k < w.length), w.place w[k].label = k := by
    intro k hk
    have hk' : k < w.labels.length := by rwa [length_labels]
    have hlabel : w[k].label = w.labels[k] := by simp [labels]
    rw [place, hlabel, h.idxOf_getElem]
  rw [hplace i hi, hplace j hj]
  exact hlt

theorem labels_middle_perm (before : Trace) (t : Transition) (rest : Trace) :
    (Trace.labels (before ++ t :: rest)).Perm (t.label :: Trace.labels (before ++ rest)) :=
  List.Perm.map Transition.label List.perm_middle

/-- Where no transition is repeated, taking one out leaves others only. -/
theorem label_ne_of_mem_append {before rest : Trace} {t u : Transition}
    (h : (Trace.labels (before ++ t :: rest)).Nodup) (hu : u ∈ before ++ rest) :
    u.label ≠ t.label := by
  have hnodup := (labels_middle_perm before t rest).nodup_iff.1 h
  intro heq
  apply (List.nodup_cons.1 hnodup).1
  rw [← heq]
  exact label_mem_labels hu

/-- **Sorting by swaps.**  An order of the labels of `w` in which the dependent
transitions keep their order is reached by swaps. -/
theorem exists_swaps_of_ordered {w : Trace} {order : List Label} (hnodup : w.labels.Nodup)
    (hperm : w.labels.Perm order)
    (hordered : w.Pairwise fun t u => t.dependsOn u = true →
      order.idxOf t.label ≤ order.idxOf u.label) :
    ∃ c, Swaps w c ∧ c.labels = order := by
  -- Induction on the new order: what comes first there moves to the front of `w`.
  induction order generalizing w with
  | nil =>
      have hnil : w = [] := List.map_eq_nil_iff.1 hperm.eq_nil
      subst hnil
      exact ⟨[], .refl, rfl⟩
  | cons first order ih =>
      obtain ⟨t, ht, rfl⟩ := List.mem_map.1 (hperm.symm.subset List.mem_cons_self)
      obtain ⟨before, rest, rfl⟩ := List.append_of_mem ht
      have hsub : (before ++ rest).Sublist (before ++ t :: rest) :=
        (List.sublist_cons_self t rest).append_left before
      have hidx : ∀ u ∈ before ++ rest,
          (t.label :: order).idxOf u.label = order.idxOf u.label + 1 := by
        intro u hu
        exact List.idxOf_cons_ne _ (label_ne_of_mem_append hnodup hu).symm
      have hfront : ∀ u ∈ before, u.dependsOn t = false := by
        intro u hu
        have hle := (List.pairwise_append.1 hordered).2.2 u hu t List.mem_cons_self
        rw [List.idxOf_cons_self, hidx u (List.mem_append_left rest hu)] at hle
        -- A dependent `u` would have to stay in front of `t`, which is first.
        by_contra hdepends
        have hle' := hle (by simpa using hdepends)
        omega
      have hperm' : (Trace.labels (before ++ rest)).Perm order :=
        List.Perm.cons_inv ((labels_middle_perm before t rest).symm.trans hperm)
      have hordered' : (before ++ rest).Pairwise fun u v => u.dependsOn v = true →
          order.idxOf u.label ≤ order.idxOf v.label := by
        refine (hordered.sublist hsub).imp_of_mem fun {u v} hu hv hle hdepends => ?_
        have hle' := hle hdepends
        rw [hidx u hu, hidx v hv] at hle'
        omega
      obtain ⟨c, hswaps, rfl⟩ := ih (hnodup.sublist (hsub.map _)) hperm' hordered'
      exact ⟨t :: c, (swaps_to_front rest hfront).trans (hswaps.cons t), rfl⟩

theorem isEquivalent_iff_exists_swaps (w w' : Trace) :
    w.isEquivalent w' = true ↔
      w.labels.Nodup ∧ ∃ c, Swaps w c ∧ c.labels = w'.labels := by
  rw [isEquivalent_iff]
  constructor
  · rintro ⟨hnodup, hperm, hordered⟩
    exact ⟨hnodup, exists_swaps_of_ordered hnodup hperm hordered⟩
  · -- Read backwards, the swaps keep the order that `c` has by its places.
    rintro ⟨hnodup, c, hswaps, hlabels⟩
    have hperm : w.labels.Perm c.labels := hswaps.perm.map Transition.label
    refine ⟨hnodup, hlabels ▸ hperm, hswaps.pairwise ?_⟩
    have hascend := pairwise_place (hperm.nodup_iff.1 hnodup)
    refine hascend.imp fun {t u} hlt _ => ?_
    unfold place at hlt ⊢
    rw [← hlabels]
    omega

/-! ### An equivalence relation -/

/-- Transitions that two traces share do the same in both. -/
def Agree (w w' : Trace) : Prop :=
  ∀ t ∈ w, ∀ u ∈ w', t.label = u.label → t.action = u.action

/-- The order of dependent pairs, place against place. -/
theorem pairwise_iff_place {w : Trace} (h : w.labels.Nodup)
    {R : Transition → Transition → Prop} :
    w.Pairwise R ↔ ∀ t ∈ w, ∀ u ∈ w, w.place t.label < w.place u.label → R t u := by
  constructor
  · intro hpairwise t ht u hu hlt
    obtain ⟨before, rest, rfl⟩ := List.append_of_mem ht
    obtain ⟨hbefore, hrest, hcross⟩ := List.pairwise_append.1 hpairwise
    obtain ⟨-, hascend, hascend'⟩ := List.pairwise_append.1 (pairwise_place h)
    -- `u` stands behind `t`, since in front of it the places are smaller.
    rcases List.mem_append.1 hu with hfront | hback
    · have hgt := hascend' u hfront t List.mem_cons_self
      omega
    · rcases List.mem_cons.1 hback with rfl | hback
      · omega
      · exact (List.pairwise_cons.1 hrest).1 u hback
  · intro hall
    exact (pairwise_place h).imp_of_mem fun ht hu hlt => hall _ ht _ hu hlt

theorem dependsOn_congr {t t' u u' : Transition} (ht : t.label = t'.label)
    (hta : t.action = t'.action) (hu : u.label = u'.label) (hua : u.action = u'.action) :
    t.dependsOn u = t'.dependsOn u' := by
  have htowner : t.owner = t'.owner := congrArg Label.owner ht
  have huowner : u.owner = u'.owner := congrArg Label.owner hu
  simp [Transition.dependsOn, htowner, huowner, hta, hua]

/-- Each transition of one trace occurs in a permuted one that agrees with it. -/
theorem Agree.exists_mem {w w' : Trace} (hagree : w.Agree w') (hperm : w.labels.Perm w'.labels)
    {u : Transition} (hu : u ∈ w') : ∃ t ∈ w, t.label = u.label ∧ t.action = u.action := by
  obtain ⟨t, ht, hlabel⟩ := List.mem_map.1 (hperm.symm.subset (label_mem_labels hu))
  exact ⟨t, ht, hlabel, hagree t ht u hu hlabel⟩

theorem isEquivalent_refl {w : Trace} (h : w.labels.Nodup) : w.isEquivalent w = true :=
  (isEquivalent_iff_exists_swaps w w).2 ⟨h, w, .refl, rfl⟩

theorem isEquivalent_symm {w w' : Trace} (hagree : w.Agree w')
    (h : w.isEquivalent w' = true) : w'.isEquivalent w = true := by
  rw [isEquivalent_iff] at h ⊢
  obtain ⟨hnodup, hperm, hordered⟩ := h
  have hnodup' := hperm.nodup_iff.1 hnodup
  refine ⟨hnodup', hperm.symm, (pairwise_iff_place hnodup').2 ?_⟩
  intro t' ht' u' hu' hlt hdepends
  obtain ⟨t, ht, htlabel, htaction⟩ := hagree.exists_mem hperm ht'
  obtain ⟨u, hu, hulabel, huaction⟩ := hagree.exists_mem hperm hu'
  rw [← dependsOn_congr htlabel htaction hulabel huaction, Transition.dependsOn_comm]
    at hdepends
  rw [← htlabel, ← hulabel] at hlt ⊢
  -- In the other order `u` would have to come before `t` in `w'` too.
  by_contra hgt
  have hle := (pairwise_iff_place hnodup).1 hordered u hu t ht (Nat.lt_of_not_le hgt) hdepends
  omega

theorem Agree.symm {w w' : Trace} (h : w.Agree w') : w'.Agree w :=
  fun u hu t ht hlabel => (h t ht u hu hlabel.symm).symm

theorem isEquivalent_comm {w w' : Trace} (hagree : w.Agree w') :
    w.isEquivalent w' = w'.isEquivalent w :=
  Bool.eq_iff_iff.2 ⟨isEquivalent_symm hagree, isEquivalent_symm hagree.symm⟩

theorem isEquivalent_trans {w w' w'' : Trace} (hagree : w.Agree w')
    (h : w.isEquivalent w' = true) (h' : w'.isEquivalent w'' = true) :
    w.isEquivalent w'' = true := by
  rw [isEquivalent_iff] at h h' ⊢
  obtain ⟨hnodup, hperm, hordered⟩ := h
  obtain ⟨hnodup', hperm', hordered'⟩ := h'
  refine ⟨hnodup, hperm.trans hperm', (pairwise_iff_place hnodup).2 ?_⟩
  intro t ht u hu hlt hdepends
  obtain ⟨t', ht', htlabel⟩ := List.mem_map.1 (hperm.subset (label_mem_labels ht))
  obtain ⟨u', hu', hulabel⟩ := List.mem_map.1 (hperm.subset (label_mem_labels hu))
  have hle := (pairwise_iff_place hnodup).1 hordered t ht u hu hlt hdepends
  have hne : w'.place t.label ≠ w'.place u.label := by
    intro heq
    have hlabel := (place_inj (hperm.subset (label_mem_labels ht))).1 heq
    rw [hlabel] at hlt
    omega
  rw [dependsOn_congr htlabel.symm (hagree t ht t' ht' htlabel.symm) hulabel.symm
    (hagree u hu u' hu' hulabel.symm)] at hdepends
  rw [← htlabel, ← hulabel] at hle hne ⊢
  exact (pairwise_iff_place hnodup').1 hordered' t' ht' u' hu' (by omega) hdepends

/-- **Equivalence is generated by swaps**: traces are equivalent iff the first one
repeats no transition and is turned into the order of the second one by swapping
neighbours that do not depend on each other, by their actions in the first one.
So equivalence is an equivalence relation on traces that repeat no transition and
agree with each other. -/
theorem isEquivalent_generated_by_swaps :
    (∀ w w' : Trace, w.isEquivalent w' = true ↔
      w.labels.Nodup ∧ ∃ c, Relation.ReflTransGen Swap w c ∧ c.labels = w'.labels) ∧
    ∀ traces : Set Trace, (∀ w ∈ traces, w.labels.Nodup) →
      (∀ w ∈ traces, ∀ w' ∈ traces, w.Agree w') →
      Equivalence fun w w' : traces => w.1.isEquivalent w'.1 = true := by
  refine ⟨isEquivalent_iff_exists_swaps, fun traces hnodup hagree => ?_⟩
  constructor
  · exact fun w => isEquivalent_refl (hnodup w.1 w.2)
  · exact fun {w w'} h => isEquivalent_symm (hagree w.1 w.2 w'.1 w'.2) h
  · exact fun {w w' w''} h h' => isEquivalent_trans (hagree w.1 w.2 w'.1 w'.2) h h'

/-- Two actors read one variable. -/
def readings : Trace := [⟨⟨0, 0⟩, .access 0 .read, false⟩, ⟨⟨0, 1⟩, .access 0 .read, false⟩]

theorem readings_generated_by_swaps :
    (∀ w ∈ ({readings, readings.reverse} : Set Trace), w.labels.Nodup) ∧
      (∀ w ∈ ({readings, readings.reverse} : Set Trace),
        ∀ w' ∈ ({readings, readings.reverse} : Set Trace), w.Agree w') ∧
      (∃ c, Relation.ReflTransGen Swap readings c ∧ c.labels = Trace.labels readings.reverse) ∧
      Equivalence fun w w' : ({readings, readings.reverse} : Set Trace) =>
        w.1.isEquivalent w'.1 = true := by
  have hnodup : ∀ w ∈ ({readings, readings.reverse} : Set Trace), w.labels.Nodup := by
    rintro _ (rfl | rfl) <;> decide
  have hagree : ∀ w ∈ ({readings, readings.reverse} : Set Trace),
      ∀ w' ∈ ({readings, readings.reverse} : Set Trace), w.Agree w' := by
    unfold Agree
    rintro _ (rfl | rfl) _ (rfl | rfl) <;> decide
  refine ⟨hnodup, hagree, ?_, isEquivalent_generated_by_swaps.2 _ hnodup hagree⟩
  exact ((isEquivalent_generated_by_swaps.1 readings readings.reverse).1 (by decide)).2

end Trace

end Interleaving
