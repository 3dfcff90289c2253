import Interleaving.Actor

/-!
# Mailboxes

A mailbox keeps a log of the sends and a log of the receives that were posted
to it.  A new post is matched with the oldest pending record of the other log,
and both are then ready; without such a record it is pending itself.
-/

namespace Interleaving

/-- Whether a record has found its partner. -/
inductive Status where
  | pending
  | ready
deriving DecidableEq

/-- One posted send or receive. -/
structure Record where
  owner : ActorId
  comm : CommId
  status : Status
deriving DecidableEq

/-- A meeting place of sends and receives.  The capacity, if there is one,
limits the length of each log. -/
structure Mailbox where
  id : MailboxId
  sends : List Record
  receives : List Record
  capacity : Option Nat
deriving DecidableEq

namespace Mailbox

/-- A mailbox to which nothing was posted. -/
def fresh (id : MailboxId) (capacity : Option Nat) : Mailbox := ⟨id, [], [], capacity⟩

/-- The records on one side. -/
def log (m : Mailbox) : Side → List Record
  | .send => m.sends
  | .receive => m.receives

/-- The mailbox with the records on one side replaced. -/
def withLog (m : Mailbox) (side : Side) (records : List Record) : Mailbox :=
  match side with
  | .send => { m with sends := records }
  | .receive => { m with receives := records }

/-- The log with its oldest pending record made ready, if it has one. -/
def settle? : List Record → Option (List Record)
  | [] => none
  | r :: rest =>
    match r.status with
    | .pending => some ({ r with status := .ready } :: rest)
    | .ready => (settle? rest).map (r :: ·)

/-- Adds a record to one log and matches it with the other one. -/
def append (m : Mailbox) (side : Side) (owner : ActorId) (comm : CommId) : Mailbox :=
  match settle? (m.log side.partner) with
  | some settled =>
    (m.withLog side.partner settled).withLog side (m.log side ++ [⟨owner, comm, .ready⟩])
  | none => m.withLog side (m.log side ++ [⟨owner, comm, .pending⟩])

/-- Posts a send or receive, unless its log is full. -/
def post (m : Mailbox) (side : Side) (owner : ActorId) (comm : CommId) :
    Except ModelError Mailbox :=
  match m.capacity with
  | none => .ok (m.append side owner comm)
  | some capacity =>
    if (m.log side).length < capacity then .ok (m.append side owner comm)
    else .error (.overCapacity (.log side m.id) capacity)

/-- Posts what a transition sends or receives here. -/
def update (m : Mailbox) (t : Transition) : Except ModelError Mailbox :=
  match t.action with
  | .post side mailbox comm =>
    if mailbox = m.id then m.post side t.owner comm else .error (.unknownMailbox mailbox)
  | _ => .error (.notCommunication t.label)

/-- Whether a record of this owner and communication has found its partner. -/
def isMatched (m : Mailbox) (owner : ActorId) (comm : CommId) : Bool :=
  (m.sends ++ m.receives).any fun r => r.owner = owner && r.comm = comm && r.status = .ready

/-- Whether the communication that a transition names is matched here.  The
mailbox that the transition names is not looked at. -/
def confirms (m : Mailbox) (t : Transition) : Bool := t.action.comm?.any (m.isMatched t.owner)

/-- Whether two mailboxes have one number. -/
def isSame (a b : Mailbox) : Bool := a.id = b.id

/-- Mailboxes compare by their numbers. -/
instance : Ord Mailbox := ⟨compareOn id⟩

@[simp] theorem log_withLog_self (m : Mailbox) (side : Side) (records : List Record) :
    (m.withLog side records).log side = records := by
  cases side <;> rfl

@[simp] theorem log_withLog_partner (m : Mailbox) (side : Side) (records : List Record) :
    (m.withLog side records).log side.partner = m.log side.partner := by
  cases side <;> rfl

end Mailbox

end Interleaving
