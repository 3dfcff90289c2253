import Interleaving.Proofs.Swaps

/-!
# Equivalence of longer traces

A transition that is recorded at the end of two traces comes last in both, so it adds no pair
whose order could differ.  Recording it keeps equivalence, and nothing else can make the longer
traces equivalent, unless one of the shorter ones has the transition already
(`Trace.isEquivalent_record_iff`).  What the transitions of the two traces do plays no part in
this: traces that disagree about it are compared by the first one before and after.
-/

namespace Interleaving

namespace Trace

variable {w : Trace} {t : Transition}

theorem labels_record (w : Trace) (t : Transition) : (w.record t).labels = w.labels ++ [t.label] :=
  List.map_append

theorem nodup_labels_record_iff :
    (w.record t).labels.Nodup ↔ w.labels.Nodup ∧ t.label ∉ w.labels := by
  rw [labels_record, ← List.concat_eq_append, List.nodup_concat, and_comm]

theorem record_perm_iff {w w' : Trace} (t : Transition) :
    (w.record t).labels.Perm (w'.record t).labels ↔ w.labels.Perm w'.labels := by
  rw [labels_record, labels_record]
  exact List.perm_append_right_iff [t.label]

/-- What was there before stays at its place. -/
theorem place_record_of_mem {l : Label} (h : l ∈ w.labels) (t : Transition) :
    (w.record t).place l = w.place l := by
  unfold place
  rw [labels_record, List.idxOf_append_of_mem h]

theorem place_record_self (h : t.label ∉ w.labels) : (w.record t).place t.label = w.length := by
  unfold place
  rw [labels_record, List.idxOf_append_of_notMem h, List.idxOf_cons_self, length_labels,
    Nat.add_zero]

/-- Every transition from before has its place in front of the new one. -/
theorem place_record_le {l : Label} (h : l ∈ w.labels) (ht : t.label ∉ w.labels) :
    (w.record t).place l ≤ (w.record t).place t.label := by
  have hlt : w.place l < w.labels.length := List.idxOf_lt_length_of_mem h
  rw [length_labels] at hlt
  rw [place_record_of_mem h, place_record_self ht]
  exact Nat.le_of_lt hlt

/-- Dependent transitions of `w` have ascending places in `w'` after a recording iff they have
them before. -/
theorem pairwise_record_iff {w w' : Trace} (hperm : w.labels.Perm w'.labels)
    (ht : t.label ∉ w.labels) :
    ((w.record t).Pairwise fun u v => u.dependsOn v = true →
        (w'.record t).place u.label ≤ (w'.record t).place v.label) ↔
      w.Pairwise fun u v => u.dependsOn v = true → w'.place u.label ≤ w'.place v.label := by
  have hmem : ∀ u ∈ w, u.label ∈ w'.labels := fun u hu => hperm.subset (label_mem_labels hu)
  have ht' : t.label ∉ w'.labels := fun h => ht (hperm.symm.subset h)
  have hbefore : ∀ {u v}, u ∈ w → v ∈ w →
      ((u.dependsOn v = true → (w'.record t).place u.label ≤ (w'.record t).place v.label) ↔
        (u.dependsOn v = true → w'.place u.label ≤ w'.place v.label)) := by
    intro u v hu hv
    rw [place_record_of_mem (hmem u hu), place_record_of_mem (hmem v hv)]
  unfold record
  rw [List.pairwise_append, ← List.Pairwise.iff_of_mem hbefore]
  refine ⟨fun h => h.1, fun h => ⟨h, List.pairwise_singleton _ t, fun u hu v hv _ => ?_⟩⟩
  rw [List.mem_singleton.1 hv]
  exact place_record_le (hmem u hu) ht'

theorem isEquivalent_record_iff (w w' : Trace) (t : Transition) :
    (w.record t).isEquivalent (w'.record t) = true ↔
      w.isEquivalent w' = true ∧ t.label ∉ w.labels := by
  rw [isEquivalent_iff, isEquivalent_iff, nodup_labels_record_iff, record_perm_iff]
  constructor
  · rintro ⟨⟨hnodup, ht⟩, hperm, hordered⟩
    exact ⟨⟨hnodup, hperm, (pairwise_record_iff hperm ht).1 hordered⟩, ht⟩
  · rintro ⟨⟨hnodup, hperm, hordered⟩, ht⟩
    exact ⟨⟨hnodup, ht⟩, hperm, (pairwise_record_iff hperm ht).2 hordered⟩

/-- **Recording keeps and reflects equivalence**, whatever the transitions do.  Two traces with
one more transition are equivalent iff they are so without it and the first one did not have it
before.  With any number of transitions recorded after both, they are equivalent iff they are
so without them and none of the new ones is repeated or was there before. -/
theorem isEquivalent_after_recording (w w' : Trace) :
    (∀ t, (w.record t).isEquivalent (w'.record t) = true ↔
      w.isEquivalent w' = true ∧ ∀ u ∈ w, u.label ≠ t.label) ∧
    ∀ later : Trace, (later.foldl record w).isEquivalent (later.foldl record w') = true ↔
      w.isEquivalent w' = true ∧ (labels later).Nodup ∧ (labels later).Disjoint w.labels := by
  constructor
  · intro t
    rw [isEquivalent_record_iff]
    simp [labels]
  · intro later
    -- Induction on what is recorded, for all pairs of traces that it may be recorded after.
    induction later generalizing w w' with
    | nil => simp [labels]
    | cons t later ih =>
        have hlabels : labels (t :: later) = t.label :: labels later := rfl
        rw [List.foldl_cons, List.foldl_cons, ih, isEquivalent_record_iff, labels_record, hlabels,
          List.nodup_cons, List.disjoint_append_right, List.disjoint_singleton,
          List.disjoint_cons_left]
        tauto

/-- The transitions of `readings` in the other order, where both of them write. -/
def writings : Trace := [⟨⟨0, 1⟩, .access 0 .write, false⟩, ⟨⟨0, 0⟩, .access 0 .write, false⟩]

/-- The two traces are equivalent in one direction only, and so they are after a further access.
A transition that they have already makes them inequivalent. -/
theorem readings_and_writings_after_recording :
    let further : Transition := ⟨⟨1, 0⟩, .access 0 .write, false⟩
    readings.isEquivalent writings = true ∧ writings.isEquivalent readings = false ∧
      (readings.record further).isEquivalent (writings.record further) = true ∧
      ¬ (writings.record further).isEquivalent (readings.record further) = true ∧
      ¬ (readings.record ⟨⟨0, 1⟩, .mutexTest, true⟩).isEquivalent
        (writings.record ⟨⟨0, 1⟩, .mutexTest, true⟩) = true := by
  intro further
  obtain ⟨hone, -⟩ := isEquivalent_after_recording readings writings
  obtain ⟨hother, -⟩ := isEquivalent_after_recording writings readings
  have hequivalent : readings.isEquivalent writings = true := by decide
  have hnot : writings.isEquivalent readings = false := by decide
  refine ⟨hequivalent, hnot, (hone further).2 ⟨hequivalent, by decide⟩, fun h => ?_, fun h => ?_⟩
  · exact absurd ((hother further).1 h).1 (by simp [hnot])
  · exact absurd rfl (((hone _).1 h).2 ⟨⟨0, 1⟩, .access 0 .read, false⟩ (by decide))

end Trace

end Interleaving
