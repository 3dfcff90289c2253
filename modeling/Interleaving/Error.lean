import Interleaving.Transition

/-!
# Causes of failure

Everything that can be wrong with a model or with a step in it, and the
sentence that is printed for it.
-/

namespace Interleaving

/-- Things of limited size. -/
inductive Bounded where
  /-- An actor with this many transitions. -/
  | actor (id : ActorId) (length : Nat)
  /-- The records on one side of a mailbox. -/
  | log (side : Side) (mailbox : MailboxId)
deriving DecidableEq

/-- Things that a state keeps by number. -/
inductive Kept where
  | actor
  | mailbox
deriving DecidableEq

/-- What is wrong with a model or with a step in it. -/
inductive ModelError where
  /-- The transition with this label cannot fire now. -/
  | notEnabled (label : Label)
  | overCapacity (subject : Bounded) (capacity : Nat)
  | unknownMailbox (id : MailboxId)
  | unknownActor (id : ActorId)
  /-- A mailbox takes sends and receives only. -/
  | notCommunication (label : Label)
  | countMismatch (declared actual : Nat)
  | repeatedActor (id : ActorId)
  | repeatedMailbox (id : MailboxId)
  /-- Something with number `id` is filed under another number. -/
  | misfiled (what : Kept) (key id : Nat)
deriving DecidableEq

namespace Bounded

/-- A thing of limited size as it is named in messages. -/
def text : Bounded → String
  | actor id length => s!"actor {id} ({length} transitions)"
  | log side mailbox => s!"{side.text} log of mailbox {mailbox}"

end Bounded

namespace Kept

/-- A kept thing as it is named in messages. -/
def text : Kept → String
  | actor => "actor"
  | mailbox => "mailbox"

end Kept

namespace ModelError

/-- The sentence printed for an error. -/
def message : ModelError → String
  | notEnabled label => s!"transition {label.text} is not enabled"
  | overCapacity subject capacity => s!"{subject.text} exceeds its capacity of {capacity}"
  | unknownMailbox id => s!"mailbox {id} does not exist"
  | unknownActor id => s!"actor {id} does not exist"
  | notCommunication label => s!"transition {label.text} is not a send or receive"
  | countMismatch declared actual =>
    s!"state declares {declared} actors but {actual} were supplied"
  | repeatedActor id => s!"actor id {id} is used more than once"
  | repeatedMailbox id => s!"mailbox id {id} is used more than once"
  | misfiled what key id => s!"{what.text} stored under key {key} has id {id}"

end ModelError

end Interleaving
