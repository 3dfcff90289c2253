import Interleaving.Validation

/-!
# Blueprints

A blueprint collects the actors, mailboxes and bounds of a model.  Building it
gives a state, or a list of problems.
-/

namespace Interleaving

/-- Limits on the size of a model; without a number there is no limit. -/
structure Bounds where
  /-- The most transitions that an actor may have. -/
  actorLength : Option Nat
  /-- The most records that each log of a mailbox may hold. -/
  logLength : Option Nat
deriving DecidableEq

namespace Bounds

/-- No limits. -/
def unlimited : Bounds := ⟨none, none⟩

end Bounds

/-- A model in the making. -/
structure Blueprint where
  actors : List (ActorId × List Action)
  mailboxes : List MailboxId
  bounds : Bounds
deriving DecidableEq

/-- Why there is no state of a blueprint, or no bounds for one. -/
inductive BuildError where
  | noActors
  | invalid (problems : List ModelError)
  /-- Bounds could not be read; the complaint says why. -/
  | config (complaint : String)
deriving DecidableEq

namespace BuildError

/-- The sentence printed for an error. -/
def message : BuildError → String
  | noActors => "No actors defined. Add at least one actor with .actor(id, transitions)"
  | invalid problems => s!"Model is invalid ({problems.length} problem(s))"
  | config complaint => s!"Configuration could not be parsed: {complaint}"

end BuildError

namespace Blueprint

/-- The blueprint with nothing on it. -/
def empty : Blueprint := ⟨[], [], Bounds.unlimited⟩

/-- Adds an actor. -/
def actor (b : Blueprint) (id : ActorId) (actions : List Action) : Blueprint :=
  { b with actors := b.actors ++ [(id, actions)] }

/-- Adds mailboxes. -/
def addMailboxes (b : Blueprint) (ids : List MailboxId) : Blueprint :=
  { b with mailboxes := b.mailboxes ++ ids }

/-- Adds a mailbox. -/
def mailbox (b : Blueprint) (id : MailboxId) : Blueprint := b.addMailboxes [id]

/-- Replaces both bounds. -/
def withBounds (b : Blueprint) (bounds : Bounds) : Blueprint := { b with bounds }

/-- Limits the length of actors. -/
def limitActors (b : Blueprint) (most : Nat) : Blueprint :=
  { b with bounds := { b.bounds with actorLength := some most } }

/-- Limits the length of logs. -/
def limitLogs (b : Blueprint) (most : Nat) : Blueprint :=
  { b with bounds := { b.bounds with logLength := some most } }

/-- Each actor placed, or why it is too long, in the order they were added. -/
def placements (b : Blueprint) : List (Except ModelError Actor) :=
  b.actors.map fun (id, actions) => Actor.ofActionsWithin b.bounds.actorLength id actions

/-- The actors that keep the bound. -/
def placed (b : Blueprint) : List Actor :=
  b.placements.filterMap Except.toOption

/-- One problem for each actor that does not keep the bound. -/
def overlong (b : Blueprint) : List ModelError :=
  b.placements.filterMap fun
    | .ok _ => none
    | .error problem => some problem

/-- The mailboxes, empty. -/
def freshMailboxes (b : Blueprint) : List Mailbox :=
  b.mailboxes.map fun id => Mailbox.fresh id b.bounds.logLength

/-- The state drawn up, or all problems: first the actors that are too long, then
what is wrong with the model without them. -/
def build (b : Blueprint) : Except BuildError State :=
  if b.actors.isEmpty then .error .noActors
  else
    match b.overlong ++ problems b.placed.length b.placed b.freshMailboxes with
    | [] => .ok (State.ofParts b.placed b.freshMailboxes)
    | problem :: rest => .error (.invalid (problem :: rest))

end Blueprint

end Interleaving
