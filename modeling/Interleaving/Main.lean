import Interleaving.Demonstration

/-!
# Command line

Prints the demonstration.
-/

open Interleaving in
/-- Prints the report on the demonstration's model. -/
def main : IO UInt32 := do
  match Demonstration.complaints, Demonstration.lines with
  | .ok complaints, .ok lines =>
    for complaint in complaints do
      IO.eprintln complaint
    for line in lines do
      IO.println line
    return 0
  | .error error, _ | _, .error error =>
    IO.eprintln error.message
    return 1
