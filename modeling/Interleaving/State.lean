import Interleaving.Mailbox
import Interleaving.Table

/-!
# States

A state holds all actors with their progress and all mailboxes with their logs.
States are values: a step makes a new state and leaves the old one as it is.

Each actor offers its next transition.  A wait is held back until its own send
or receive is matched; everything else is ready at once.  `enabled` lists what
may fire, and `execute` fires one transition.
-/

namespace Interleaving

/-- All actors and mailboxes of a model at one moment. -/
structure State where
  actors : Table Actor
  mailboxes : Table Mailbox
deriving DecidableEq

namespace State

/-- Files actors and mailboxes under their own numbers; of several with one
number the last stays. -/
def ofParts (actors : List Actor) (mailboxes : List Mailbox) : State :=
  ⟨Table.ofList (actors.map fun a => (a.id, a)),
    Table.ofList (mailboxes.map fun m => (m.id, m))⟩

/-- All executed transitions, by actor and then in sequence. -/
def executed (s : State) : List Transition := s.actors.values.flatMap Actor.executed

/-- Whether two states have the same actors with the same progress and the same
mailboxes with the same logs.  What the transitions do, where they belong and
how large the mailboxes are is not compared. -/
def sameProgress (s s' : State) : Bool :=
  s.actors.values.map (fun a => (a.id, a.progress)) =
      s'.actors.values.map (fun a => (a.id, a.progress)) &&
    s.mailboxes.values.map (fun m => (m.id, m.sends, m.receives)) =
      s'.mailboxes.values.map (fun m => (m.id, m.sends, m.receives))

/-- A state as it is printed: its executed transitions. -/
def text (s : State) : String :=
  "s = (" ++ String.join (s.executed.map fun t => t.label.text ++ " is executed") ++ ")"

/-! ### Firing -/

/-- Whether nothing holds a transition back. -/
def isReady (s : State) (t : Transition) : Bool :=
  match t.action with
  | .wait mailbox _ => (s.mailboxes.get? mailbox).any (·.confirms t)
  | _ => true

/-- The transition that an actor may fire now. -/
def offer? (s : State) (a : Actor) : Option Transition := a.next?.filter s.isReady

/-- The transitions that may fire, ascending by label.  Of two with one label
the one of the actor with the larger number is listed. -/
def enabled (s : State) : List Transition :=
  ascendingBy Transition.label (s.actors.values.filterMap s.offer?)

/-- Whether nothing may fire. -/
def isTerminal (s : State) : Bool := s.enabled.isEmpty

/-- The mailboxes after a transition: a send or receive is posted, nothing else
touches them. -/
def deliver (s : State) (t : Transition) : Except ModelError (Table Mailbox) :=
  match t.action with
  | .post _ mailbox _ =>
    match s.mailboxes.get? mailbox with
    | none => .error (.unknownMailbox mailbox)
    | some m => (m.update t).map (s.mailboxes.insert mailbox)
  | _ => .ok s.mailboxes

/-- Fires the transition with this label.  It must be the one that its owner
offers; the mark is set at the index that the label gives as position. -/
def execute (s : State) (label : Label) : Except ModelError State :=
  match s.actors.get? label.owner with
  | none => .error (.unknownActor label.owner)
  | some actor =>
    match s.offer? actor with
    | none => .error (.notEnabled label)
    | some t =>
      if t.position = label.position then
        (s.deliver t).map fun mailboxes =>
          ⟨s.actors.insert label.owner (actor.markExecuted label.position), mailboxes⟩
      else .error (.notEnabled label)

end State

end Interleaving
