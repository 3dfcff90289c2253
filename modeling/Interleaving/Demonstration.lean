import Interleaving.Blueprint
import Interleaving.Exploration

/-!
# A demonstration

The report on a small model: a send and a write, a receive that is waited for,
and two reads.  It counts the complete runs and their classes and prints one run
of each class.
-/

namespace Interleaving

namespace Demonstration

/-- Three actors and one mailbox. -/
def blueprint : Blueprint :=
  Blueprint.empty
    |>.actor 0 [.post .send 1 0, .access 0 .write]
    |>.actor 1 [.post .receive 1 0, .wait 1 0]
    |>.actor 2 [.access 0 .read, .access 1 .read]
    |>.mailbox 1

/-- The line for one class. -/
def classLine (number : Nat) (first : Trace) : String :=
  s!"  class {number}: " ++ " ".intercalate (first.map Transition.text)

/-- The report on the runs of a state, in pieces each of which ends a line. -/
def report (runs : List Run) : List String :=
  let firsts := representatives (runs.map Run.trace)
  ["=== Exhaustive Exploration Example ===\n",
    s!"Complete runs explored: {runs.length}",
    s!"Equivalence classes:    {firsts.length}"] ++
  firsts.mapIdx classLine ++
  (runs.getLast?.map fun run => s!"\nFinal state of the last run: {run.final.text}").toList ++
  ["\n=== Example Complete ==="]

/-- The whole demonstration, or why its model cannot be built. -/
def lines : Except BuildError (List String) :=
  blueprint.build.map fun s => report (completeRuns s)

/-- What is said about the branches that were not completed. -/
def complaints : Except BuildError (List String) :=
  blueprint.build.map fun s => (explore s).filterMap Outcome.complaint?

end Demonstration

end Interleaving
