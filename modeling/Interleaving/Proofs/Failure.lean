import Interleaving.Proofs.Frontier

/-!
# How a step fails

In a sound state, whatever its marks and logs are, a step fails for one of three reasons
(`State.Fails`): the owner of the label is unknown, the owner does not offer the label, or
the offered transition posts to a full log.  All states that can be obtained are sound, so
the errors of `State.execute` and `Mailbox.update` for a missing mailbox and for an action
that is no post never come up.
-/

namespace Interleaving

namespace State

variable {s s' : State}

/-- Why a label cannot be fired: a missing actor comes first, then what the actor offers,
and the bound of a log comes last. -/
inductive Fails (s : State) (l : Label) : ModelError → Prop
  | unknownActor (hactor : s.actors.get? l.owner = none) : Fails s l (.unknownActor l.owner)
  | notEnabled {a : Actor} (hactor : s.actors.get? l.owner = some a)
      (hnot : ∀ t, s.offer? a = some t → t.position ≠ l.position) : Fails s l (.notEnabled l)
  | overCapacity {a : Actor} {t : Transition} {side : Side} {mailbox : MailboxId}
      {capacity : Nat} (hactor : s.actors.get? l.owner = some a) (hoffer : s.offer? a = some t)
      (hposition : t.position = l.position) (hfull : s.Overfills t side mailbox capacity) :
      Fails s l (.overCapacity (.log side mailbox) capacity)

/-- A step fails for one of the three reasons only. -/
theorem IsSound.execute_eq_error_iff_fails (hs : s.IsSound) {l : Label} {error : ModelError} :
    s.execute l = .error error ↔ s.Fails l error := by
  constructor
  · intro h
    cases hactor : s.actors.get? l.owner with
    | none =>
        rw [execute_of_get?_eq_none hactor] at h
        cases h
        exact .unknownActor hactor
    | some a =>
        by_cases hoffered : ∃ t, s.offer? a = some t ∧ t.position = l.position
        · obtain ⟨t, hoffer, hposition⟩ := hoffered
          rw [execute_of_offer? hactor hoffer hposition, map_eq_error_iff,
            deliver_eq_error_iff hs hactor (mem_of_offer? hoffer)] at h
          obtain ⟨side, mailbox, capacity, hfull, rfl⟩ := h
          exact .overCapacity hactor hoffer hposition hfull
        · have hnot : ∀ t, s.offer? a = some t → t.position ≠ l.position :=
            fun t hoffer hposition => hoffered ⟨t, hoffer, hposition⟩
          rw [execute_of_not_offered hactor hnot] at h
          cases h
          exact .notEnabled hactor hnot
  · intro h
    cases h with
    | unknownActor hactor => exact execute_of_get?_eq_none hactor
    | notEnabled hactor hnot => exact execute_of_not_offered hactor hnot
    | @overCapacity a t side mailbox capacity hactor hoffer hposition hfull =>
        rw [execute_of_offer? hactor hoffer hposition, map_eq_error_iff,
          deliver_eq_error_iff hs hactor (mem_of_offer? hoffer)]
        exact ⟨side, mailbox, capacity, hfull, rfl⟩

/-- **Errors that never arise.**  In a state that can be obtained each mailbox is filed under
its own number, and each mailbox that a transition names is there, whether the transition is
executed or not.  A step from it fails at an unknown owner, at a label that its owner does
not offer, or at a full log, and in no other way. -/
theorem execute_fails_in_three_ways (hobtained : s.IsObtained) :
    (∀ (id : MailboxId) (m : Mailbox), s.mailboxes.get? id = some m → m.id = id) ∧
    (∀ (id : ActorId) (a : Actor), s.actors.get? id = some a → ∀ t ∈ a.transitions,
      ∀ mailbox, t.action.mailbox? = some mailbox → ∃ m, s.mailboxes.get? mailbox = some m) ∧
    ∀ (t : Transition) (error : ModelError),
      (s.execute t.label = .error error ↔ s.Fails t.label error) ∧
      (s.execute t.label = .error error →
        error = .unknownActor t.owner ∨ error = .notEnabled t.label ∨
          ∃ side mailbox capacity, error = .overCapacity (.log side mailbox) capacity) := by
  have hsound := hobtained.isSound
  refine ⟨fun id m hm => hsound.mailbox_id hm,
    fun id a ha t ht mailbox hnamed => hsound.named ha ht hnamed, fun t error => ?_⟩
  refine ⟨hsound.execute_eq_error_iff_fails, fun h => ?_⟩
  cases hsound.execute_eq_error_iff_fails.1 h with
  | unknownActor => exact .inl rfl
  | notEnabled => exact .inr (.inl rfl)
  | overCapacity => exact .inr (.inr ⟨_, _, _, rfl⟩)

/-- The jumbled state after its lock: one actor is done, the other one posts to a log that
is longer than its mailbox allows. -/
theorem execute_fails_in_jumbled_after_lock :
    ∃ s, jumbled.execute ⟨0, 3⟩ = .ok s ∧ s.IsObtained ∧
      s.Fails ⟨0, 7⟩ (.unknownActor 7) ∧ s.Fails ⟨1, 3⟩ (.notEnabled ⟨1, 3⟩) ∧
      s.Fails ⟨0, 4⟩ (.overCapacity (.log .receive 1) 1) ∧
      ∃ m, s.mailboxes.get? 1 = some m ∧ m.id = 1 := by
  have hload : ofTables jumbled.actors jumbled.mailboxes = .ok jumbled := by decide
  obtain ⟨s, hs⟩ : ∃ s, jumbled.execute ⟨0, 3⟩ = .ok s := ⟨_, rfl⟩
  have hobtained : s.IsObtained := .fired (.loaded hload) hs
  obtain ⟨hid, -, hfails⟩ := execute_fails_in_three_ways hobtained
  cases hs
  refine ⟨_, rfl, hobtained, ?_, ?_, ?_, _, rfl, hid 1 _ rfl⟩
  · exact (hfails ⟨⟨0, 7⟩, .mutexTest, false⟩ _).1.1 rfl
  · exact (hfails ⟨⟨1, 3⟩, .mutexTest, false⟩ _).1.1 rfl
  · exact (hfails ⟨⟨0, 4⟩, .mutexTest, false⟩ _).1.1 rfl

end State

end Interleaving
