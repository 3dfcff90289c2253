import Interleaving.Proofs.Construction

/-!
# From calls to states

A blueprint is drawn up by a sequence of calls.  What it holds in the end can be read off the
calls without going through them one by one: the actors and the mailboxes in the order in which
they were added, and for each bound the last thing that was said about it
(`Blueprint.drafted_eq`).  So it does not matter whether a bound is set before or after the
actors that it limits are added.

Building leaves out the actors that are too long and then goes the way of `State.make`: the two
agree on the outcome, on the state and on the problems (`Blueprint.build_agrees_with_make`).
-/

namespace Interleaving

namespace Blueprint

/-! ### Calls -/

/-- One call on a blueprint in the making. -/
inductive Call where
  | actor (id : ActorId) (actions : List Action)
  | mailbox (id : MailboxId)
  | addMailboxes (ids : List MailboxId)
  | withBounds (bounds : Bounds)
  | limitActors (most : Nat)
  | limitLogs (most : Nat)

namespace Call

/-- The blueprint after a call. -/
def apply (b : Blueprint) : Call → Blueprint
  | actor id actions => b.actor id actions
  | mailbox id => b.mailbox id
  | addMailboxes ids => b.addMailboxes ids
  | withBounds bounds => b.withBounds bounds
  | limitActors most => b.limitActors most
  | limitLogs most => b.limitLogs most

/-- The actor that a call adds. -/
def actor? : Call → Option (ActorId × List Action)
  | actor id actions => some (id, actions)
  | _ => none

/-- The mailboxes that a call adds. -/
def listed : Call → List MailboxId
  | mailbox id => [id]
  | addMailboxes ids => ids
  | _ => []

/-- What a call says about the length of actors. -/
def actorLength? : Call → Option (Option Nat)
  | withBounds bounds => some bounds.actorLength
  | limitActors most => some (some most)
  | _ => none

/-- What a call says about the length of logs. -/
def logLength? : Call → Option (Option Nat)
  | withBounds bounds => some bounds.logLength
  | limitLogs most => some (some most)
  | _ => none

end Call

/-- The blueprint drawn up by a sequence of calls. -/
def drafted (calls : List Call) : Blueprint := calls.foldl Call.apply empty

/-- The actors that some calls add, in order. -/
def addedActors (calls : List Call) : List (ActorId × List Action) := calls.filterMap Call.actor?

/-- The mailboxes that some calls add, in order. -/
def addedMailboxes (calls : List Call) : List MailboxId := calls.flatMap Call.listed

/-- The last thing that some calls say about each bound; there is none before it is set. -/
def lastBounds (calls : List Call) : Bounds :=
  ⟨(calls.reverse.findSome? Call.actorLength?).getD none,
    (calls.reverse.findSome? Call.logLength?).getD none⟩

theorem lastBounds_append_singleton (calls : List Call) (call : Call) :
    lastBounds (calls ++ [call]) = ⟨call.actorLength?.getD (lastBounds calls).actorLength,
      call.logLength?.getD (lastBounds calls).logLength⟩ := by
  unfold lastBounds
  rw [List.reverse_append, List.reverse_singleton, List.singleton_append, List.findSome?_cons,
    List.findSome?_cons]
  cases call.actorLength? <;> cases call.logLength? <;> rfl

/-- One call adds what it names and replaces the bounds that it speaks of. -/
theorem Call.apply_eq (b : Blueprint) (call : Call) :
    call.apply b = ⟨b.actors ++ call.actor?.toList, b.mailboxes ++ call.listed,
      ⟨call.actorLength?.getD b.bounds.actorLength, call.logLength?.getD b.bounds.logLength⟩⟩ := by
  cases call <;> simp [apply, actor?, listed, actorLength?, logLength?, Blueprint.actor,
    Blueprint.mailbox, Blueprint.addMailboxes, Blueprint.withBounds, Blueprint.limitActors,
    Blueprint.limitLogs]

/-- **What the calls leave behind.**  Actors and mailboxes are collected in order, and of each
bound the last call that speaks of it counts. -/
theorem drafted_eq (calls : List Call) :
    drafted calls = ⟨addedActors calls, addedMailboxes calls, lastBounds calls⟩ := by
  -- Induction on the last call, which is the one that is applied last.
  induction calls using List.reverseRecOn with
  | nil => rfl
  | append_singleton calls call ih =>
      have hdrafted : drafted (calls ++ [call]) = call.apply (drafted calls) := by
        simp [drafted]
      have hactors : addedActors (calls ++ [call]) = addedActors calls ++ call.actor?.toList := by
        cases hcall : call.actor? <;> simp [addedActors, hcall]
      have hmailboxes : addedMailboxes (calls ++ [call]) = addedMailboxes calls ++ call.listed := by
        simp [addedMailboxes]
      rw [hdrafted, ih, Call.apply_eq, hactors, hmailboxes, lastBounds_append_singleton]

/-! ### The outcome -/

variable (b : Blueprint)

theorem excesses_eq_nil_iff : b.excesses = [] ↔ b.leftOut = [] := by
  unfold excesses
  split
  case h_1 hbound =>
    have hall : b.leftOut = [] := by
      simp [leftOut, Bounds.Admits, hbound]
    simp [hall]
  case h_2 => exact List.map_eq_nil_iff

/-- A blueprint is built iff nothing is left out and the kept actors make a state. -/
theorem build_eq_ok_iff_make {s : State} (hactors : b.actors ≠ []) :
    b.build = .ok s ↔ b.leftOut = [] ∧
      State.make b.kept.length (b.kept.map Actor.ofEntry) b.freshMailboxes = .ok s := by
  rw [build_eq_ok_iff, objections_eq, List.append_eq_nil_iff, excesses_eq_nil_iff, placed_eq,
    State.make_eq_ok_iff, and_assoc]
  exact and_iff_right hactors

theorem countMismatch_not_mem_objections (declared actual : Nat) :
    .countMismatch declared actual ∉ b.objections := by
  have hexcess : .countMismatch declared actual ∉ b.excesses := by
    unfold excesses
    split <;> simp
  rw [objections_eq, problems_of_length_eq (List.length_map _), List.mem_append, not_or]
  exact ⟨hexcess, by simp⟩

/-- **Building agrees with making.**  The calls leave behind what they add, in order, and the
last bounds.  Building is refused for want of actors iff none was added.  Otherwise it succeeds
iff no actor was left out as too long and the kept ones make a state with the mailboxes, and it
gives that state.  If it fails, then it tells one excess for each actor that was left out and
all problems of the kept ones, which is at least one thing and never a wrong number of
actors. -/
theorem build_agrees_with_make (calls : List Call) :
    let b := drafted calls
    b = ⟨addedActors calls, addedMailboxes calls, lastBounds calls⟩ ∧
    (b.build = .error .noActors ↔ addedActors calls = []) ∧
    (addedActors calls ≠ [] →
      (∀ s, b.build = .ok s ↔ b.leftOut = [] ∧
        State.make b.kept.length (b.kept.map Actor.ofEntry) b.freshMailboxes = .ok s) ∧
      ((∀ s, b.build ≠ .ok s) → ∃ found, b.build = .error (.invalid found) ∧ found ≠ [] ∧
        found = b.excesses ++
          problems b.kept.length (b.kept.map Actor.ofEntry) b.freshMailboxes ∧
        ∀ declared actual, .countMismatch declared actual ∉ found)) := by
  intro b
  have hb : b = ⟨addedActors calls, addedMailboxes calls, lastBounds calls⟩ := drafted_eq calls
  have hadded : b.actors = addedActors calls := by rw [hb]
  refine ⟨hb, hadded ▸ build_eq_noActors_iff, fun hactors => ?_⟩
  rw [← hadded] at hactors
  refine ⟨fun s => b.build_eq_ok_iff_make hactors, fun hnot => ?_⟩
  have hsome : b.objections ≠ [] := fun hnone =>
    hnot _ (build_eq_ok_iff.2 ⟨hactors, hnone, rfl⟩)
  exact ⟨b.objections, build_eq_invalid_iff.2 ⟨hactors, hsome, rfl⟩, hsome, b.objections_eq,
    b.countMismatch_not_mem_objections⟩

/-- A bound on actors that is taken back after an actor was added, and a bound on logs. -/
def relaxed : List Call :=
  [.limitActors 1, .actor 3 [.lock 0, .unlock 0], .mailbox 5, .withBounds ⟨none, some 2⟩]

/-- An actor that turns out to be too long, two actors with one number, a mailbox that is listed
twice and one that is missing. -/
def muddled : List Call :=
  [.actor 0 [.post .send 7 0], .addMailboxes [1, 1], .actor 2 [.lock 0, .unlock 0],
    .actor 0 [.post .send 1 0], .limitActors 1]

theorem build_agrees_with_make_on_calls :
    (∃ s, (drafted relaxed).build = .ok s ∧
      State.make 1 [Actor.ofActions 3 [.lock 0, .unlock 0]] [Mailbox.fresh 5 (some 2)] = .ok s) ∧
    (drafted muddled).build = .error (.invalid [.overCapacity (.actor 2 2) 1, .repeatedActor 0,
      .repeatedMailbox 1, .unknownMailbox 7]) ∧
    (drafted [.mailbox 1]).build = .error .noActors := by
  obtain ⟨-, -, hrelaxed⟩ := build_agrees_with_make relaxed
  obtain ⟨-, -, hmuddled⟩ := build_agrees_with_make muddled
  obtain ⟨-, hnone, -⟩ := build_agrees_with_make [.mailbox 1]
  obtain ⟨s, hs⟩ : ∃ s, (drafted relaxed).build = .ok s := ⟨_, rfl⟩
  obtain ⟨hbuilt, hrefused⟩ := hmuddled (by decide)
  have hnot : ∀ s, (drafted muddled).build ≠ .ok s := fun s h =>
    absurd ((hbuilt s).1 h).1 (by decide)
  obtain ⟨found, hfound, -, hall, -⟩ := hrefused hnot
  refine ⟨⟨s, hs, (((hrelaxed (by decide)).1 s).1 hs).2⟩, ?_, hnone.2 rfl⟩
  rw [hfound, hall]
  rfl

end Blueprint

end Interleaving
