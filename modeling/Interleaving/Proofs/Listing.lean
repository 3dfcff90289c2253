import Interleaving.Proofs.Diagnosis
import Interleaving.Proofs.Drafting

/-!
# The order of listing

Which entry of a list counts as the repetition of a number depends on the order of the list, and
a table keeps the last of several values with one number.  Neither can be seen from outside.  A
number is told once less than it is listed, whichever entries are blamed
(`count_repetitions`), and a table is only made when no number is repeated.  So a model that is
listed in another order has the same problems in another order, or is the same state
(`Blueprint.build_forgets_order`).
-/

namespace Interleaving

/-- A number is told once for each time that it is listed, except for the first. -/
theorem count_repetitions (ns : List Nat) (n : Nat) :
    (repetitions [] ns).count n = ns.count n - 1 := by
  induction ns using List.reverseRecOn with
  | nil => rfl
  | append_singleton ns m ih =>
      rw [repetitions_append_singleton, List.count_append, List.count_append, ih]
      by_cases hmn : m = n
      · subst hmn
        by_cases hm : m ∈ ns
        · have hpos : 0 < ns.count m := List.count_pos_iff.2 hm
          simp only [List.not_mem_nil, hm, or_true, if_true, List.count_singleton_self]
          omega
        · have hzero : ns.count m = 0 := List.count_eq_zero.2 hm
          simp [hm, hzero]
      · by_cases hm : m ∈ ns <;> simp [hm, hmn]

theorem repetitions_perm {ns ns' : List Nat} (h : ns.Perm ns') :
    (repetitions [] ns).Perm (repetitions [] ns') := by
  rw [List.perm_iff_count]
  intro n
  rw [count_repetitions, count_repetitions, h.count_eq]

section Model

variable {actors actors' : List Actor} {mailboxes mailboxes' : List Mailbox}
  (hactors : actors.Perm actors') (hmailboxes : mailboxes.Perm mailboxes')
include hactors hmailboxes

theorem missingMailboxes_eq_of_perm :
    missingMailboxes actors mailboxes = missingMailboxes actors' mailboxes' := by
  refine (ascending_missingMailboxes _ _).eq_of_mem_iff (ascending_missingMailboxes _ _)
    fun id => ?_
  have hnames : Names actors id ↔ Names actors' id := by
    unfold Names
    simp only [hactors.mem_iff]
  rw [mem_missingMailboxes_iff, mem_missingMailboxes_iff, hnames,
    (hmailboxes.map Mailbox.id).mem_iff]

/-- A model that is listed in another order has the same problems, up to their order. -/
theorem problems_perm (declared : Nat) :
    (problems declared actors mailboxes).Perm (problems declared actors' mailboxes') := by
  unfold problems
  rw [hactors.length_eq, missingMailboxes_eq_of_perm hactors hmailboxes]
  refine List.Perm.append_right _ (List.Perm.append (List.Perm.append_left _ ?_) ?_)
  · exact (repetitions_perm (hactors.map Actor.id)).map _
  · exact (repetitions_perm (hmailboxes.map Mailbox.id)).map _

/-- Lists without repeated numbers are filed alike in every order. -/
theorem State.ofParts_eq_of_perm (hids : (actors.map Actor.id).Nodup)
    (hids' : (mailboxes.map Mailbox.id).Nodup) :
    State.ofParts actors mailboxes = State.ofParts actors' mailboxes' := by
  unfold State.ofParts
  rw [Table.ofList_eq_of_perm (hactors.map _), Table.ofList_eq_of_perm (hmailboxes.map _)]
  · rw [List.map_map]
    exact hids'
  · rw [List.map_map]
    exact hids

theorem State.make_eq_ok_of_perm {declared : Nat} {s : State}
    (h : State.make declared actors mailboxes = .ok s) :
    State.make declared actors' mailboxes' = .ok s := by
  obtain ⟨hnone, rfl⟩ := State.make_eq_ok_iff.1 h
  obtain ⟨-, hids, hids', -⟩ := problems_eq_nil_iff.1 hnone
  have hperm := problems_perm hactors hmailboxes declared
  rw [hnone, List.nil_perm] at hperm
  exact State.make_eq_ok_iff.2 ⟨hperm, State.ofParts_eq_of_perm hactors hmailboxes hids hids'⟩

end Model

namespace Blueprint

/-- Two blueprints list the same actors and mailboxes under the same bounds, each in its own
order. -/
structure Relists (b b' : Blueprint) : Prop where
  actors : b.actors.Perm b'.actors
  mailboxes : b.mailboxes.Perm b'.mailboxes
  bounds : b.bounds = b'.bounds

namespace Relists

variable {b b' : Blueprint}

theorem symm (h : b.Relists b') : b'.Relists b :=
  ⟨h.actors.symm, h.mailboxes.symm, h.bounds.symm⟩

theorem actors_eq_nil_iff (h : b.Relists b') : b.actors = [] ↔ b'.actors = [] := by
  rw [← List.length_eq_zero_iff, ← List.length_eq_zero_iff, h.actors.length_eq]

theorem kept_perm (h : b.Relists b') : b.kept.Perm b'.kept := by
  unfold kept
  rw [h.bounds]
  exact h.actors.filter _

theorem leftOut_perm (h : b.Relists b') : b.leftOut.Perm b'.leftOut := by
  unfold leftOut
  rw [h.bounds]
  exact h.actors.filter _

theorem excesses_perm (h : b.Relists b') : b.excesses.Perm b'.excesses := by
  unfold excesses
  rw [h.bounds]
  split
  · exact .refl _
  · exact h.leftOut_perm.map _

theorem freshMailboxes_perm (h : b.Relists b') : b.freshMailboxes.Perm b'.freshMailboxes := by
  unfold freshMailboxes
  rw [h.bounds]
  exact h.mailboxes.map _

theorem objections_perm (h : b.Relists b') : b.objections.Perm b'.objections := by
  rw [objections_eq, objections_eq, h.kept_perm.length_eq]
  exact h.excesses_perm.append (problems_perm (h.kept_perm.map _) h.freshMailboxes_perm _)

theorem build_eq_ok (h : b.Relists b') {s : State} (hbuild : b.build = .ok s) :
    b'.build = .ok s := by
  obtain ⟨hsome, hnone, -⟩ := build_eq_ok_iff.1 hbuild
  have hsome' : b'.actors ≠ [] := fun hnil => hsome (h.actors_eq_nil_iff.2 hnil)
  rw [build_eq_ok_iff_make _ hsome] at hbuild
  rw [build_eq_ok_iff_make _ hsome', ← h.kept_perm.length_eq]
  refine ⟨List.nil_perm.1 (hbuild.1 ▸ h.leftOut_perm), ?_⟩
  exact State.make_eq_ok_of_perm (h.kept_perm.map _) h.freshMailboxes_perm hbuild.2

theorem build_eq_invalid (h : b.Relists b') {found : List ModelError}
    (hbuild : b.build = .error (.invalid found)) :
    ∃ found', b'.build = .error (.invalid found') ∧ found.Perm found' := by
  obtain ⟨hsome, hfound, rfl⟩ := build_eq_invalid_iff.1 hbuild
  have hperm := h.objections_perm
  refine ⟨b'.objections, build_eq_invalid_iff.2 ⟨?_, ?_, rfl⟩, hperm⟩
  · exact fun hnil => hsome (h.actors_eq_nil_iff.2 hnil)
  · exact fun hnil => hfound (List.perm_nil.1 (hnil ▸ hperm))

end Relists

/-- **The order of listing is forgotten.**  Two sequences of calls that add the same actors and
mailboxes in different orders and end with the same bounds give the same state, or both none.
If they fail, then both for want of actors, or both with the same problems up to their order.
What is made of lists of actors and mailboxes, whatever has happened to them, does not depend on
the order of the lists either. -/
theorem build_forgets_order {calls calls' : List Call}
    (hactors : (addedActors calls).Perm (addedActors calls'))
    (hmailboxes : (addedMailboxes calls).Perm (addedMailboxes calls'))
    (hbounds : lastBounds calls = lastBounds calls') :
    (∀ s, (drafted calls).build = .ok s ↔ (drafted calls').build = .ok s) ∧
    ((drafted calls).build = .error .noActors ↔ (drafted calls').build = .error .noActors) ∧
    (∀ found, (drafted calls).build = .error (.invalid found) →
      ∃ found', (drafted calls').build = .error (.invalid found') ∧ found.Perm found') ∧
    ∀ (declared : Nat) (actors actors' : List Actor) (mailboxes mailboxes' : List Mailbox),
      actors.Perm actors' → mailboxes.Perm mailboxes' → ∀ s,
        State.make declared actors mailboxes = .ok s ↔
          State.make declared actors' mailboxes' = .ok s := by
  have h : (drafted calls).Relists (drafted calls') := by
    rw [drafted_eq, drafted_eq]
    exact ⟨hactors, hmailboxes, hbounds⟩
  refine ⟨fun s => ⟨h.build_eq_ok, h.symm.build_eq_ok⟩, ?_, fun found => h.build_eq_invalid, ?_⟩
  · rw [build_eq_noActors_iff, build_eq_noActors_iff, h.actors_eq_nil_iff]
  · intro declared actors actors' mailboxes mailboxes' hperm hperm' s
    exact ⟨State.make_eq_ok_of_perm hperm hperm', State.make_eq_ok_of_perm hperm.symm hperm'.symm⟩

/-- The calls of `muddled`, with the bound first and the lists turned round. -/
def muddledBackwards : List Call :=
  [.limitActors 1, .actor 0 [.post .send 1 0], .actor 2 [.lock 0, .unlock 0], .mailbox 1,
    .actor 0 [.post .send 7 0], .mailbox 1]

theorem build_forgets_order_of_muddle :
    (addedActors muddled).Perm (addedActors muddledBackwards) ∧
    (addedMailboxes muddled).Perm (addedMailboxes muddledBackwards) ∧
    lastBounds muddled = lastBounds muddledBackwards ∧
    (∃ found', (drafted muddledBackwards).build = .error (.invalid found') ∧
      [.overCapacity (.actor 2 2) 1, .repeatedActor 0, .repeatedMailbox 1,
        .unknownMailbox 7].Perm found') ∧
    ∃ s, State.make 2 [Actor.ofActions 0 [.lock 0], Actor.ofActions 1 []] [] = .ok s ∧
      State.make 2 [Actor.ofActions 1 [], Actor.ofActions 0 [.lock 0]] [] = .ok s := by
  have hactors : (addedActors muddled).Perm (addedActors muddledBackwards) := by decide
  have hmailboxes : (addedMailboxes muddled).Perm (addedMailboxes muddledBackwards) := by decide
  have hbounds : lastBounds muddled = lastBounds muddledBackwards := by decide
  obtain ⟨-, -, hinvalid, hmake⟩ := build_forgets_order hactors hmailboxes hbounds
  refine ⟨hactors, hmailboxes, hbounds, hinvalid _ rfl, _, rfl, ?_⟩
  exact (hmake 2 _ _ [] [] (.swap _ _ []) (.refl _) _).1 rfl

end Blueprint

end Interleaving
