import Interleaving.Error

/-!
# Actors

An actor is a numbered sequence of transitions.  The earliest one that is not
executed is the next one to fire.
-/

namespace Interleaving

/-- A sequence of transitions under a number. -/
structure Actor where
  id : ActorId
  transitions : List Transition
deriving DecidableEq

namespace Actor

/-- An actor that performs `actions` in order: the transition at each index has
that index as position, the actor as owner, and is not executed. -/
def ofActions (id : ActorId) (actions : List Action) : Actor :=
  ⟨id, actions.mapIdx fun position action => ⟨⟨position, id⟩, action, false⟩⟩

/-- An actor of at most so many actions as the bound allows, if there is one. -/
def ofActionsWithin (bound : Option Nat) (id : ActorId) (actions : List Action) :
    Except ModelError Actor :=
  match bound with
  | none => .ok (ofActions id actions)
  | some capacity =>
    if actions.length ≤ capacity then .ok (ofActions id actions)
    else .error (.overCapacity (.actor id actions.length) capacity)

/-- The number of transitions. -/
def length (a : Actor) : Nat := a.transitions.length

/-- The earliest transition that is not executed. -/
def next? (a : Actor) : Option Transition := a.transitions.find? fun t => !t.executed

/-- Whether nothing is left to fire. -/
def isFinished (a : Actor) : Bool := a.next?.isNone

/-- Whether there is a transition at this index and it is executed. -/
def isExecuted (a : Actor) (index : Nat) : Bool := a.transitions[index]?.any (·.executed)

/-- The actor after the transition at this index, if there is one, has fired. -/
def markExecuted (a : Actor) (index : Nat) : Actor :=
  { a with transitions := a.transitions.modify index fun t => { t with executed := true } }

/-- The executed transitions, in order. -/
def executed (a : Actor) : List Transition := a.transitions.filter (·.executed)

/-- The marks of all transitions, in order. -/
def progress (a : Actor) : List Bool := a.transitions.map (·.executed)

/-- Whether two actors have one number. -/
def isSame (a b : Actor) : Bool := a.id = b.id

/-- Actors compare by their numbers. -/
instance : Ord Actor := ⟨compareOn id⟩

end Actor

end Interleaving
