import Interleaving.State

/-!
# Traces

A trace is a sequence of transitions.  It is replayed by firing them one after
another.  Two traces are equivalent if they hold the same transitions and keep
every dependent pair in the same order: they are then two interleavings of one
partial order.
-/

namespace Interleaving

/-- A sequence of transitions. -/
abbrev Trace := List Transition

namespace Trace

/-- The labels of the transitions. -/
def labels (w : Trace) : List Label := w.map Transition.label

/-- The trace with one more transition at its end. -/
def record (w : Trace) (t : Transition) : Trace := w ++ [t]

/-- Fires every transition in order; the first that fails ends the replay. -/
def replay (w : Trace) (s : State) : Except ModelError State :=
  w.foldlM (fun s t => s.execute t.label) s

/-- The place of each transition of `w` in `w'`, if all of them occur there. -/
def places? (w w' : Trace) : Option (List Nat) :=
  w.mapM fun t => w'.labels.idxOf? t.label

/-- Whether `w'` is `w` with its transitions reordered such that every pair that
depends on each other, by their actions in `w`, keeps its order.  A trace that
repeats a transition is equivalent to none. -/
def isEquivalent (w w' : Trace) : Bool :=
  w.length = w'.length && w'.labels.Nodup &&
    match w.places? w' with
    | none => false
    | some places =>
      places.Nodup &&
        (w.zip places).Pairwise fun (t, i) (u, j) => t.dependsOn u → i ≤ j

end Trace

end Interleaving
