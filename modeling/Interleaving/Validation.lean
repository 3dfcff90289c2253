import Interleaving.State

/-!
# Checking models

A list of actors and a list of mailboxes make a state if the number of actors is
the declared one, no number is used twice and every mailbox that is named
exists.  `problems` lists everything that is wrong, in a fixed order.

A snapshot is a table of actors and a table of mailboxes from outside.  It is
taken as a state if everything is filed under its own number and the model that
it describes is sound.  The progress and the logs may be any.
-/

namespace Interleaving

/-- The members of a list that occur earlier in it, once for each repetition;
`seen` are members from before the list. -/
def repetitions (seen : List Nat) : List Nat → List Nat
  | [] => []
  | n :: rest =>
    if n ∈ seen then n :: repetitions seen rest else repetitions (n :: seen) rest

/-- The mailboxes that the transitions of some actors name. -/
def namedMailboxes (actors : List Actor) : List MailboxId :=
  (actors.flatMap Actor.transitions).filterMap (·.action.mailbox?)

/-- The mailboxes that are named but not listed, ascending. -/
def missingMailboxes (actors : List Actor) (mailboxes : List Mailbox) : List MailboxId :=
  ascendingBy id ((namedMailboxes actors).filter (· ∉ mailboxes.map Mailbox.id))

/-- All that is wrong with a model: a wrong number of actors, numbers used more
than once, mailboxes that do not exist. -/
def problems (declared : Nat) (actors : List Actor) (mailboxes : List Mailbox) :
    List ModelError :=
  (if actors.length = declared then [] else [.countMismatch declared actors.length]) ++
    (repetitions [] (actors.map Actor.id)).map .repeatedActor ++
    (repetitions [] (mailboxes.map Mailbox.id)).map .repeatedMailbox ++
    (missingMailboxes actors mailboxes).map .unknownMailbox

/-- The first thing that is filed under another number than its own. -/
def Table.misfiled? {α : Type} (what : Kept) (number : α → Nat) (t : Table α) :
    Option ModelError :=
  (t.entries.find? fun (key, x) => key ≠ number x).map fun (key, x) =>
    .misfiled what key (number x)

namespace State

/-- The state of a model, or the first thing that is wrong with it. -/
def make (declared : Nat) (actors : List Actor) (mailboxes : List Mailbox) :
    Except ModelError State :=
  match problems declared actors mailboxes with
  | [] => .ok (ofParts actors mailboxes)
  | problem :: _ => .error problem

/-- The state of a snapshot, or the first thing that is wrong with it. -/
def ofTables (actors : Table Actor) (mailboxes : Table Mailbox) : Except ModelError State :=
  match actors.misfiled? .actor Actor.id, mailboxes.misfiled? .mailbox Mailbox.id with
  | some error, _ => .error error
  | none, some error => .error error
  | none, none => make actors.size actors.values mailboxes.values

end State

end Interleaving
