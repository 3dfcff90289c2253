import Interleaving.Trace

/-!
# Exploration

`explore` follows every order in which the transitions of a state may fire, to
the end.  The runs that it finds fall into classes of equivalent traces, and one
run of each class stands for all of them.

Exploration ends because a step uses up something: a transition that was not
executed, or room in the log of a bounded mailbox.  In a state that was not
built from actions, a transition can sit at an index other than its position; a
step that uses up nothing is then possible again for ever, belongs to no
complete run, and is not followed.
-/

namespace Interleaving

namespace Actor

/-- How many transitions are left to fire. -/
def remaining (a : Actor) : Nat := a.transitions.countP fun t => !t.executed

end Actor

namespace Mailbox

/-- How many records the logs can still take, if they are bounded. -/
def room (m : Mailbox) : Nat :=
  match m.capacity with
  | none => 0
  | some capacity => (capacity - m.sends.length) + (capacity - m.receives.length)

end Mailbox

namespace State

/-- What the steps from a state can still use up. -/
def budget (s : State) : Nat :=
  s.actors.values.foldr (fun a n => a.remaining + n) 0 +
    s.mailboxes.values.foldr (fun m n => m.room + n) 0

end State

/-- A trace with the state in which it ends. -/
structure Run where
  trace : Trace
  final : State
deriving DecidableEq

/-- How one branch of an exploration ends. -/
inductive Outcome where
  /-- Nothing may fire any more. -/
  | complete (run : Run)
  /-- An enabled transition could not be fired. -/
  | refused (label : Label) (error : ModelError)
deriving DecidableEq

namespace Outcome

/-- The outcome seen from one transition earlier. -/
def after (t : Transition) : Outcome → Outcome
  | complete run => complete { run with trace := t :: run.trace }
  | refused label error => refused label error

/-- The run of a branch that was completed. -/
def run? : Outcome → Option Run
  | complete run => some run
  | refused .. => none

/-- The sentence printed for a branch that was not completed. -/
def complaint? : Outcome → Option String
  | complete _ => none
  | refused label error => some s!"cannot execute {label.text}: {error.message}"

end Outcome

/-- The outcomes of all orders of firing, in the order of the enabled
transitions at each step. -/
def explore (s : State) : List Outcome :=
  match s.enabled with
  | [] => [.complete ⟨[], s⟩]
  | frontier => frontier.flatMap fun t =>
    match s.execute t.label with
    | .error error => [.refused t.label error]
    | .ok next =>
      if _used : next.budget < s.budget then (explore next).map (.after t) else []
termination_by s.budget

/-- All complete runs from a state. -/
def completeRuns (s : State) : List Run := (explore s).filterMap Outcome.run?

/-- The first members of all classes. -/
def representatives (traces : List Trace) : List Trace :=
  traces.foldl (fun firsts w =>
    if firsts.any (·.isEquivalent w) then firsts else firsts ++ [w]) []

end Interleaving
