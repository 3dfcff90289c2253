import Interleaving.Proofs.Listing
import Mathlib.Data.List.Count
import Mathlib.Data.List.Perm.Subperm

/-!
# What building leaves unsaid

An actor that is too long is left out before the rest is checked.  So building tells that it is
too long, and not what else is wrong with it: that another actor has its number, or that a
mailbox that it names does not exist.  Everything that building tells is wrong with the
blueprint (`Blueprint.reported_sublist`), but it tells everything only if no actor that is left
out takes such a problem with it (`Blueprint.reports_all_iff`).
-/

namespace Interleaving

/-! ### Models without some of their actors -/

theorem repetitions_cons (seen : List Nat) (n : Nat) (ns : List Nat) :
    repetitions seen (n :: ns) =
      if n ∈ seen then n :: repetitions seen ns else repetitions (n :: seen) ns := rfl

/-- A part of a list repeats no number that the list does not repeat. -/
theorem repetitions_sublist {seen seen' ns ns' : List Nat} (h : ns'.Sublist ns)
    (hseen : seen' ⊆ seen) : (repetitions seen' ns').Sublist (repetitions seen ns) := by
  induction h generalizing seen seen' with
  | slnil => exact .refl _
  | cons n _ ih =>
      rw [repetitions_cons seen]
      by_cases hn : n ∈ seen
      · rw [if_pos hn]
        exact (ih hseen).cons n
      · rw [if_neg hn]
        exact ih fun m hm => List.mem_cons_of_mem n (hseen hm)
  | cons_cons n _ ih =>
      rw [repetitions_cons, repetitions_cons]
      by_cases hn' : n ∈ seen'
      · rw [if_pos hn', if_pos (hseen hn')]
        exact (ih hseen).cons_cons n
      · rw [if_neg hn']
        by_cases hn : n ∈ seen
        · -- The number was seen before in the whole list only, so only there it is repeated.
          rw [if_pos hn]
          exact (ih (List.cons_subset.2 ⟨hn, hseen⟩)).cons n
        · rw [if_neg hn]
          exact ih (List.cons_subset_cons n hseen)

/-- Missing mailboxes that are missing elsewhere too stand there in the same order. -/
theorem missingMailboxes_sublist {actors actors' : List Actor} {mailboxes mailboxes' : List Mailbox}
    (h : missingMailboxes actors' mailboxes' ⊆ missingMailboxes actors mailboxes) :
    (missingMailboxes actors' mailboxes').Sublist (missingMailboxes actors mailboxes) := by
  have hascend : ∀ (as : List Actor) (ms : List Mailbox),
      (missingMailboxes as ms).Pairwise (· < ·) := fun _ _ => pairwise_lt_ascendingBy _
  have hnodup : (missingMailboxes actors' mailboxes').Nodup :=
    (hascend _ _).imp fun hlt => Nat.ne_of_lt hlt
  exact List.sublist_of_subperm_of_pairwise (List.subperm_of_subset hnodup h) (hascend _ _)
    (hascend _ _)

/-- Taking actors out of a model adds no problem. -/
theorem problems_sublist {actors actors' : List Actor} (mailboxes : List Mailbox)
    (h : actors'.Sublist actors) :
    (problems actors'.length actors' mailboxes).Sublist
      (problems actors.length actors mailboxes) := by
  have hmissing : missingMailboxes actors' mailboxes ⊆ missingMailboxes actors mailboxes := by
    intro id hid
    obtain ⟨⟨a, ha, hnamed⟩, hnot⟩ := mem_missingMailboxes_iff.1 hid
    exact mem_missingMailboxes_iff.2 ⟨⟨a, h.subset ha, hnamed⟩, hnot⟩
  rw [problems_of_length_eq rfl, problems_of_length_eq rfl]
  refine List.Sublist.append (List.Sublist.append ?_ (.refl _)) ?_
  · exact (repetitions_sublist (h.map Actor.id) (List.Subset.refl [])).map _
  · exact (missingMailboxes_sublist hmissing).map _

theorem repeatedActor_injective : Function.Injective ModelError.repeatedActor :=
  fun _ _ h => ModelError.repeatedActor.inj h

section Count

variable (declared : Nat) (actors : List Actor) (mailboxes : List Mailbox)

theorem count_repeatedActor_problems (id : ActorId) :
    (problems declared actors mailboxes).count (.repeatedActor id) =
      (actors.map Actor.id).count id - 1 := by
  have hmismatch : (if actors.length = declared then []
      else [ModelError.countMismatch declared actors.length]).count (.repeatedActor id) = 0 := by
    split <;> rfl
  have hmailboxes : ((repetitions [] (mailboxes.map Mailbox.id)).map
      ModelError.repeatedMailbox).count (.repeatedActor id) = 0 :=
    List.count_eq_zero.2 (by simp)
  have hmissing : ((missingMailboxes actors mailboxes).map
      ModelError.unknownMailbox).count (.repeatedActor id) = 0 :=
    List.count_eq_zero.2 (by simp)
  unfold problems
  rw [List.count_append, List.count_append, List.count_append, hmismatch, hmailboxes, hmissing,
    List.count_map_of_injective _ _ repeatedActor_injective, count_repetitions]
  omega

theorem unknownMailbox_mem_problems_iff (id : MailboxId) :
    .unknownMailbox id ∈ problems declared actors mailboxes ↔
      id ∈ missingMailboxes actors mailboxes := by
  unfold problems
  split <;> simp

end Count

theorem map_action_ofEntry (entry : ActorId × List Action) :
    (Actor.ofEntry entry).transitions.map Transition.action = entry.2 := by
  unfold Actor.ofEntry Actor.ofActions
  apply List.ext_getElem?
  intro index
  simp [Function.comp_def]

/-- The actors of some entries name what the actions of the entries name. -/
theorem names_map_ofEntry_iff {entries : List (ActorId × List Action)} {mailbox : MailboxId} :
    Names (entries.map Actor.ofEntry) mailbox ↔
      ∃ entry ∈ entries, ∃ action ∈ entry.2, action.mailbox? = some mailbox := by
  have hentry : ∀ entry : ActorId × List Action,
      (∃ t ∈ (Actor.ofEntry entry).transitions, t.action.mailbox? = some mailbox) ↔
        ∃ action ∈ entry.2, action.mailbox? = some mailbox := by
    intro entry
    conv => rhs; rw [← map_action_ofEntry entry]
    simp
  unfold Names
  simp only [List.mem_map, exists_exists_and_eq_and, hentry]

namespace Blueprint

/-- All that is wrong with a blueprint: the actors that are too long, and the problems of all
actors that were added, however long they are. -/
def faults (b : Blueprint) : List ModelError :=
  b.excesses ++ problems b.actors.length (b.actors.map Actor.ofEntry) b.freshMailboxes

/-- The problems that building tells. -/
def reported (b : Blueprint) : List ModelError :=
  match b.build with
  | .error (.invalid found) => found
  | _ => []

/-- `b.Hides entry` says that a problem of `b` goes unsaid when the actor `entry` is left out:
another actor has its number, or it names a mailbox that does not exist and that no kept actor
names. -/
inductive Hides (b : Blueprint) (entry : ActorId × List Action) : Prop
  | repeated (h : 1 < (b.actors.map Prod.fst).count entry.1)
  | missing (mailbox : MailboxId) (action : Action) (haction : action ∈ entry.2)
      (hmailbox : action.mailbox? = some mailbox) (hmissing : mailbox ∉ b.mailboxes)
      (hunnamed : ∀ other ∈ b.kept, ∀ action' ∈ other.2, action'.mailbox? ≠ some mailbox)

variable {b : Blueprint}

theorem map_id_freshMailboxes (b : Blueprint) : b.freshMailboxes.map Mailbox.id = b.mailboxes := by
  unfold freshMailboxes
  rw [List.map_map]
  exact List.map_id _

theorem map_id_map_ofEntry (entries : List (ActorId × List Action)) :
    (entries.map Actor.ofEntry).map Actor.id = entries.map Prod.fst := by
  rw [List.map_map]
  rfl

theorem reported_eq (h : b.actors ≠ []) : b.reported = b.objections := by
  unfold reported
  rw [build_of_actors_ne_nil h]
  by_cases hnone : b.objections = [] <;> simp [hnone]

/-- Nothing is told that is not wrong. -/
theorem reported_sublist (h : b.actors ≠ []) : b.reported.Sublist b.faults := by
  have hkept : (b.kept.map Actor.ofEntry).Sublist (b.actors.map Actor.ofEntry) :=
    List.filter_sublist.map _
  have hproblems := problems_sublist b.freshMailboxes hkept
  rw [List.length_map, List.length_map] at hproblems
  rw [reported_eq h, objections_eq]
  exact hproblems.append_left b.excesses

/-- The excesses and the mailboxes that are listed twice do not depend on who is left out. -/
theorem excesses_sublist_reported (h : b.actors ≠ []) :
    (b.excesses ++ (repetitions [] b.mailboxes).map ModelError.repeatedMailbox).Sublist
      b.reported := by
  rw [reported_eq h, objections_eq]
  refine List.Sublist.append_left ?_ b.excesses
  rw [problems_of_length_eq (List.length_map _), map_id_freshMailboxes]
  exact (List.sublist_append_right _ _).trans (List.sublist_append_left _ _)

theorem mem_missingMailboxes_ofEntry_iff (b : Blueprint)
    {entries : List (ActorId × List Action)} {mailbox : MailboxId} :
    mailbox ∈ missingMailboxes (entries.map Actor.ofEntry) b.freshMailboxes ↔
      (∃ entry ∈ entries, ∃ action ∈ entry.2, action.mailbox? = some mailbox) ∧
        mailbox ∉ b.mailboxes := by
  rw [mem_missingMailboxes_iff, names_map_ofEntry_iff, map_id_freshMailboxes]

/-- Each actor that was added is kept or left out. -/
theorem count_actors (b : Blueprint) (id : ActorId) :
    (b.actors.map Prod.fst).count id =
      (b.kept.map Prod.fst).count id + (b.leftOut.map Prod.fst).count id := by
  have hperm : (b.kept ++ b.leftOut).Perm b.actors := by
    unfold kept leftOut
    simp only [decide_not]
    exact List.filter_append_perm _ _
  rw [← List.count_append, ← List.map_append, (hperm.map Prod.fst).count_eq]

theorem mem_actors_iff {entry : ActorId × List Action} :
    entry ∈ b.actors ↔ entry ∈ b.kept ∨ entry ∈ b.leftOut := by
  unfold kept leftOut
  by_cases hentry : b.bounds.Admits entry <;> simp [hentry]

theorem not_hides_of_subperm (h : b.actors ≠ []) (hall : b.faults.Subperm b.reported)
    {entry : ActorId × List Action} (hentry : entry ∈ b.leftOut) : ¬ b.Hides entry := by
  rw [reported_eq h, objections_eq] at hall
  have hproblems := (List.subperm_append_left _).1 hall
  rintro (hrepeated | ⟨mailbox, action, haction, hmailbox, hmissing, hunnamed⟩)
  · have hcount := hproblems.count_le (.repeatedActor entry.1)
    rw [count_repeatedActor_problems, count_repeatedActor_problems, map_id_map_ofEntry,
      map_id_map_ofEntry, count_actors] at hcount
    have hpos : 0 < (b.leftOut.map Prod.fst).count entry.1 :=
      List.count_pos_iff.2 (List.mem_map_of_mem hentry)
    rw [count_actors] at hrepeated
    omega
  · have hmem : .unknownMailbox mailbox ∈
        problems b.actors.length (b.actors.map Actor.ofEntry) b.freshMailboxes := by
      rw [unknownMailbox_mem_problems_iff, mem_missingMailboxes_ofEntry_iff]
      exact ⟨⟨entry, mem_actors_iff.2 (.inr hentry), action, haction, hmailbox⟩, hmissing⟩
    have hmem' := hproblems.subset hmem
    rw [unknownMailbox_mem_problems_iff, mem_missingMailboxes_ofEntry_iff] at hmem'
    obtain ⟨⟨other, hother, action', haction', hmailbox'⟩, -⟩ := hmem'
    exact hunnamed other hother action' haction' hmailbox'

section Complete

variable (hnone : ∀ entry ∈ b.leftOut, ¬ b.Hides entry)
include hnone

theorem count_repetitions_of_not_hides (id : ActorId) :
    (b.actors.map Prod.fst).count id - 1 ≤ (b.kept.map Prod.fst).count id - 1 := by
  by_cases hid : id ∈ b.leftOut.map Prod.fst
  · -- The number belongs to an actor that is left out, so no other actor has it.
    obtain ⟨entry, hentry, rfl⟩ := List.mem_map.1 hid
    have hle : ¬ 1 < (b.actors.map Prod.fst).count entry.1 := fun hlt =>
      hnone entry hentry (.repeated hlt)
    omega
  · have hzero := List.count_eq_zero.2 hid
    have hcount := b.count_actors id
    omega

theorem missingMailboxes_of_not_hides :
    missingMailboxes (b.actors.map Actor.ofEntry) b.freshMailboxes ⊆
      missingMailboxes (b.kept.map Actor.ofEntry) b.freshMailboxes := by
  intro mailbox hmailbox
  rw [mem_missingMailboxes_ofEntry_iff] at hmailbox ⊢
  obtain ⟨⟨entry, hentry, action, haction, hnamed⟩, hnot⟩ := hmailbox
  refine ⟨?_, hnot⟩
  rcases mem_actors_iff.1 hentry with hkept | hleft
  · exact ⟨entry, hkept, action, haction, hnamed⟩
  · by_contra hunnamed
    refine hnone entry hleft (.missing mailbox action haction hnamed hnot ?_)
    exact fun other hother action' haction' hnamed' =>
      hunnamed ⟨other, hother, action', haction', hnamed'⟩

theorem subperm_of_not_hides (h : b.actors ≠ []) : b.faults.Subperm b.reported := by
  have hrepetitions : (repetitions [] ((b.actors.map Actor.ofEntry).map Actor.id)).Subperm
      (repetitions [] ((b.kept.map Actor.ofEntry).map Actor.id)) := by
    rw [List.subperm_ext_iff]
    intro id _
    rw [count_repetitions, count_repetitions, map_id_map_ofEntry, map_id_map_ofEntry]
    exact count_repetitions_of_not_hides hnone id
  have hmissing := missingMailboxes_sublist (missingMailboxes_of_not_hides hnone)
  rw [reported_eq h, objections_eq, faults, List.subperm_append_left,
    problems_of_length_eq (List.length_map _), problems_of_length_eq (List.length_map _)]
  refine List.Subperm.append (List.Subperm.append ?_ (.refl _)) (hmissing.map _).subperm
  exact hrepetitions.map repeatedActor_injective

end Complete

/-- **Building tells everything unless it hides something.**  Whatever it tells is wrong with the
blueprint, and the excesses and the mailboxes that are listed twice are all told.  Everything is
told, as often as it is wrong, iff no actor that is left out as too long shares its number with
another actor or names a mailbox that does not exist and that no kept actor names. -/
theorem reports_all_iff {calls : List Call} (hadded : addedActors calls ≠ []) :
    let b := drafted calls
    b.reported.Sublist b.faults ∧
    (b.excesses ++ (repetitions [] b.mailboxes).map ModelError.repeatedMailbox).Sublist
      b.reported ∧
    (b.faults.Subperm b.reported ↔ ∀ entry ∈ b.leftOut, ¬ b.Hides entry) := by
  intro b
  have hactors : b.actors ≠ [] := by
    rw [show b = _ from drafted_eq calls]
    exact hadded
  exact ⟨reported_sublist hactors, excesses_sublist_reported hactors,
    fun hall _ hentry => not_hides_of_subperm hactors hall hentry,
    fun hnone => subperm_of_not_hides hnone hactors⟩

/-- The actor that is left out of `muddled` has its own number and names no mailbox. -/
theorem muddled_reports_all :
    addedActors muddled ≠ [] ∧ (drafted muddled).faults.Subperm (drafted muddled).reported ∧
      ∀ entry ∈ (drafted muddled).leftOut, ¬ (drafted muddled).Hides entry := by
  have hadded : addedActors muddled ≠ [] := by decide
  have hall : (drafted muddled).faults.Subperm (drafted muddled).reported := by decide
  exact ⟨hadded, hall, (reports_all_iff hadded).2.2.1 hall⟩

/-- An actor that is too long, has the number of another one and names a mailbox that does not
exist. -/
def crowded : List Call :=
  [.actor 2 [.post .send 7 0, .wait 7 0], .actor 2 [.lock 0], .limitActors 1]

/-- Only the length of the actor is told. -/
theorem crowded_reports_one_of_three :
    addedActors crowded ≠ [] ∧
    (drafted crowded).build = .error (.invalid [.overCapacity (.actor 2 2) 1]) ∧
    problems 2 ((addedActors crowded).map Actor.ofEntry) [] =
      [.repeatedActor 2, .unknownMailbox 7] ∧
    ¬ (drafted crowded).faults.Subperm (drafted crowded).reported := by
  exact ⟨by decide, by decide, by decide, by decide⟩

end Blueprint

end Interleaving
