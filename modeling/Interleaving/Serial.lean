import Interleaving.Blueprint
import Interleaving.Json.Shape
import Interleaving.Trace

/-!
# The program's types in JSON

Actions, modes of access and statuses are choices; everything else is a record.
What may be missing may be left out of an object: the capacity of a mailbox, and
each of the bounds.

A state is a record of two tables.  Reading one is more than decoding: the tables
are checked as a snapshot.  The check belongs to the value, so a value that fails
it is rejected whatever follows in the text.
-/

namespace Interleaving

/-! ### Transitions, actors and traces -/

namespace AccessMode

/-- A mode of access in JSON. -/
def toJson : AccessMode → Json
  | read => .name "Read"
  | write => .name "Write"

/-- Reads a mode of access. -/
def ofJson? (v : Json) : Option AccessMode :=
  match v.choice? with
  | some ("Read", body) => if Json.isNothing body then some read else none
  | some ("Write", body) => if Json.isNothing body then some write else none
  | _ => none

end AccessMode

namespace Action

/-- The parts of an action that names a communication. -/
def commParts (mailbox : MailboxId) (comm : CommId) : List (String × Json) :=
  [("mailbox", .nat mailbox), ("comm", .nat comm)]

/-- An action in JSON. -/
def toJson : Action → Json
  | post .send mailbox comm => .choice "Send" (commParts mailbox comm)
  | post .receive mailbox comm => .choice "Receive" (commParts mailbox comm)
  | wait mailbox comm => .choice "Wait" (commParts mailbox comm)
  | lock mutex => .choice "Lock" [("mutex", .nat mutex)]
  | unlock mutex => .choice "Unlock" [("mutex", .nat mutex)]
  | mutexWait => .name "MutexWait"
  | mutexTest => .name "MutexTest"
  | access var mode => .choice "MemoryAccess" [("variable", .nat var), ("mode", mode.toJson)]

/-- Reads the mailbox and the communication that an action names. -/
def commParts? (v : Json) : Option (MailboxId × CommId) :=
  match v.fields? ["mailbox", "comm"] with
  | some [some mailbox, some comm] => do return (← mailbox.nat?, ← comm.nat?)
  | _ => none

/-- Reads the mutex that an action names. -/
def mutexPart? (v : Json) : Option MutexId :=
  match v.fields? ["mutex"] with
  | some [some mutex] => mutex.nat?
  | _ => none

/-- Reads the variable that an action uses and how. -/
def accessParts? (v : Json) : Option (VariableId × AccessMode) :=
  match v.fields? ["variable", "mode"] with
  | some [some var, some mode] => do return (← var.nat?, ← AccessMode.ofJson? mode)
  | _ => none

/-- Reads an action. -/
def ofJson? (v : Json) : Option Action :=
  match v.choice? with
  | some ("Send", some body) => (commParts? body).map fun (m, c) => post .send m c
  | some ("Receive", some body) => (commParts? body).map fun (m, c) => post .receive m c
  | some ("Wait", some body) => (commParts? body).map fun (m, c) => wait m c
  | some ("Lock", some body) => (mutexPart? body).map lock
  | some ("Unlock", some body) => (mutexPart? body).map unlock
  | some ("MutexWait", body) => if Json.isNothing body then some mutexWait else none
  | some ("MutexTest", body) => if Json.isNothing body then some mutexTest else none
  | some ("MemoryAccess", some body) => (accessParts? body).map fun (v, mode) => access v mode
  | _ => none

end Action

namespace Transition

/-- A transition in JSON. -/
def toJson (t : Transition) : Json :=
  .record [("position", .nat t.position), ("owner", .nat t.owner),
    ("kind", t.action.toJson), ("executed", .bool t.executed)]

/-- Reads a transition. -/
def ofJson? (v : Json) : Option Transition :=
  match v.fields? ["position", "owner", "kind", "executed"] with
  | some [some position, some owner, some kind, some executed] => do
    return ⟨⟨← position.nat?, ← owner.nat?⟩, ← Action.ofJson? kind, ← executed.bool?⟩
  | _ => none

end Transition

namespace Actor

/-- An actor in JSON. -/
def toJson (a : Actor) : Json :=
  .record [("id", .nat a.id), ("transitions", .array (a.transitions.map Transition.toJson))]

/-- Reads an actor. -/
def ofJson? (v : Json) : Option Actor :=
  match v.fields? ["id", "transitions"] with
  | some [some id, some transitions] => do
    return ⟨← id.nat?, ← transitions.list? Transition.ofJson?⟩
  | _ => none

end Actor

namespace Trace

/-- A trace in JSON. -/
def toJson (w : Trace) : Json :=
  .record [("transitions", .array (w.map Transition.toJson))]

/-- Reads a trace. -/
def ofJson? (v : Json) : Option Trace :=
  match v.fields? ["transitions"] with
  | some [some transitions] => transitions.list? Transition.ofJson?
  | _ => none

end Trace

/-! ### Mailboxes -/

namespace Status

/-- A status in JSON. -/
def toJson : Status → Json
  | pending => .name "Pending"
  | ready => .name "Ready"

/-- Reads a status. -/
def ofJson? (v : Json) : Option Status :=
  match v.choice? with
  | some ("Pending", body) => if Json.isNothing body then some pending else none
  | some ("Ready", body) => if Json.isNothing body then some ready else none
  | _ => none

end Status

namespace Record

/-- A record of a log in JSON. -/
def toJson (r : Record) : Json :=
  .record [("owner", .nat r.owner), ("comm", .nat r.comm), ("status", r.status.toJson)]

/-- Reads a record of a log. -/
def ofJson? (v : Json) : Option Record :=
  match v.fields? ["owner", "comm", "status"] with
  | some [some owner, some comm, some status] => do
    return ⟨← owner.nat?, ← comm.nat?, ← Status.ofJson? status⟩
  | _ => none

end Record

namespace Mailbox

/-- A mailbox in JSON. -/
def toJson (m : Mailbox) : Json :=
  .record [("id", .nat m.id), ("sends", .array (m.sends.map Record.toJson)),
    ("receives", .array (m.receives.map Record.toJson)), ("capacity", .optionalNat m.capacity)]

/-- Reads a mailbox. -/
def ofJson? (v : Json) : Option Mailbox :=
  match v.fields? ["id", "sends", "receives", "capacity"] with
  | some [some id, some sends, some receives, capacity] => do
    return ⟨← id.nat?, ← sends.list? Record.ofJson?, ← receives.list? Record.ofJson?,
      ← (capacity.getD .null).optionalNat?⟩
  | _ => none

end Mailbox

/-! ### Bounds -/

namespace Bounds

/-- Bounds in JSON. -/
def toJson (b : Bounds) : Json :=
  .record [("max_transitions_per_actor", .optionalNat b.actorLength),
    ("max_mailbox_log", .optionalNat b.logLength)]

/-- Reads bounds. -/
def ofJson? (v : Json) : Option Bounds :=
  match v.fieldsFrom? 0 ["max_transitions_per_actor", "max_mailbox_log"] with
  | some [actorLength, logLength] => do
    return ⟨← (actorLength.getD .null).optionalNat?, ← (logLength.getD .null).optionalNat?⟩
  | _ => none

/-- The bounds that a text holds.  Where it holds none, `complain` puts into words
what is wrong with the text. -/
def ofText (complain : String → String) (text : String) : Except BuildError Bounds :=
  match (Json.ofText? text).bind ofJson? with
  | some b => .ok b
  | none => .error (.config (complain text))

end Bounds

/-! ### States -/

/-- Why a text holds no state. -/
inductive ReadError where
  /-- The text is no JSON text of a state. -/
  | malformed
  /-- The text describes a state that cannot be. -/
  | rejected (error : ModelError)
deriving DecidableEq

namespace State

/-- A state in JSON. -/
def toJson (s : State) : Json :=
  .record [("actors", .table (s.actors.entries.map fun (key, a) => (key, a.toJson))),
    ("mailboxes", .table (s.mailboxes.entries.map fun (key, m) => (key, m.toJson)))]

/-- Reads the two tables of a snapshot; of entries with one key the last stays. -/
def tables? (v : Json) : Option (Table Actor × Table Mailbox) :=
  match v.fields? ["actors", "mailboxes"] with
  | some [some actors, some mailboxes] => do
    return (Table.ofList (← actors.table? Actor.ofJson?),
      Table.ofList (← mailboxes.table? Mailbox.ofJson?))
  | _ => none

/-- The JSON text of a state. -/
def toText (s : State) : String := s.toJson.text

/-- The state that a text holds. -/
def ofText (text : String) : Except ReadError State :=
  match Json.first? text with
  | none => .error .malformed
  | some (v, rest) =>
    match tables? v with
    | none => .error .malformed
    | some (actors, mailboxes) =>
      match ofTables actors mailboxes with
      | .error error => .error (.rejected error)
      | .ok s => if rest.isEmpty then .ok s else .error .malformed

end State

end Interleaving
