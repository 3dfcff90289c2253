/-!
# Transitions

A transition is an action at a label, with a mark once it is executed.  Two
transitions with one label count as the same transition, whatever they do;
`dependsOn` looks at what they do.

The label is the position in a sequence and the actor that owns the sequence.
Labels are ordered by position first, so the first steps of all actors come
before every second step.  Sends and receives are the two sides of one
communication through a mailbox, and `Action.conflicts` says which actions of
different actors must keep their order.
-/

namespace Interleaving

/-! ### Labels -/

/-- Numbers of actors. -/
abbrev ActorId := Nat

/-- Numbers of mailboxes. -/
abbrev MailboxId := Nat

/-- Numbers that tie a wait to the send or receive it waits for. -/
abbrev CommId := Nat

/-- Numbers of mutexes. -/
abbrev MutexId := Nat

/-- Numbers of shared variables. -/
abbrev VariableId := Nat

/-- The identity of a transition. -/
structure Label where
  position : Nat
  owner : ActorId
deriving DecidableEq

namespace Label

/-- Labels compare by position, then by owner. -/
instance : Ord Label :=
  ⟨compareLex (compareOn Label.position) (compareOn Label.owner)⟩

instance : Std.TransOrd Label :=
  inferInstanceAs (Std.TransCmp (compareLex (compareOn Label.position) (compareOn Label.owner)))

/-- Labels that compare equal are equal. -/
instance : Std.LawfulEqOrd Label where
  eq_of_compare {a b} h := by
    obtain ⟨hposition, howner⟩ := Ordering.then_eq_eq.1 h
    have hposition' : a.position = b.position := Std.LawfulEqOrd.eq_of_compare hposition
    have howner' : a.owner = b.owner := Std.LawfulEqOrd.eq_of_compare howner
    cases a
    cases b
    cases hposition'
    cases howner'
    rfl

/-- A label comes before another iff its position is smaller, or the position is
the same and its owner is smaller. -/
theorem compare_eq_lt_iff {a b : Label} :
    compare a b = .lt ↔ a.position < b.position ∨ a.position = b.position ∧ a.owner < b.owner := by
  change ((compare a.position b.position).then (compare a.owner b.owner)) = .lt ↔ _
  rw [Ordering.then_eq_lt, Nat.compare_eq_lt, Nat.compare_eq_eq, Nat.compare_eq_lt]

/-- A label as it is printed. -/
def text (l : Label) : String := s!"t{l.position}-p{l.owner}"

end Label

/-! ### Actions -/

/-- The two sides of a mailbox. -/
inductive Side where
  | send
  | receive
deriving DecidableEq

namespace Side

/-- The side that a record of this side is matched with. -/
def partner : Side → Side
  | send => receive
  | receive => send

/-- A side as it is printed. -/
def text : Side → String
  | send => "send"
  | receive => "receive"

@[simp] theorem partner_partner (side : Side) : side.partner.partner = side := by
  cases side <;> rfl

theorem partner_ne (side : Side) : side.partner ≠ side := by
  cases side <;> decide

end Side

/-- How a shared variable is used. -/
inductive AccessMode where
  | read
  | write
deriving DecidableEq

namespace AccessMode

/-- A mode of access as it is printed. -/
def text : AccessMode → String
  | read => "read"
  | write => "write"

end AccessMode

/-- What a transition does. -/
inductive Action where
  /-- Puts a send or a receive into a mailbox. -/
  | post (side : Side) (mailbox : MailboxId) (comm : CommId)
  /-- Goes on once the actor's own send or receive with this number is matched. -/
  | wait (mailbox : MailboxId) (comm : CommId)
  | lock (mutex : MutexId)
  | unlock (mutex : MutexId)
  | mutexWait
  | mutexTest
  /-- Reads or writes a shared variable. -/
  | access (var : VariableId) (mode : AccessMode)
deriving DecidableEq

namespace Action

/-- The mailbox that a send, receive or wait names. -/
def mailbox? : Action → Option MailboxId
  | post _ mailbox _ => some mailbox
  | wait mailbox _ => some mailbox
  | _ => none

/-- The number of the communication that a send, receive or wait names. -/
def comm? : Action → Option CommId
  | post _ _ comm => some comm
  | wait _ comm => some comm
  | _ => none

/-- Whether firing the action puts a record into a mailbox. -/
def isCommunication : Action → Bool
  | post .. => true
  | _ => false

/-- Whether two actions of different actors must keep their order: posts on one
side of one mailbox, locks of one mutex, an unlock and a mutex wait or test, and
uses of one variable unless both read. -/
def conflicts : Action → Action → Bool
  | post side mailbox _, post side' mailbox' _ => side = side' && mailbox = mailbox'
  | lock mutex, lock mutex' => mutex = mutex'
  | unlock _, mutexWait => true
  | unlock _, mutexTest => true
  | mutexWait, unlock _ => true
  | mutexTest, unlock _ => true
  | access var mode, access var' mode' =>
    var = var' && (mode = .write || mode' = .write)
  | _, _ => false

/-- An action as it is printed. -/
def text : Action → String
  | post side mailbox comm => s!"{side.text}(mb{mailbox}, c{comm})"
  | wait mailbox comm => s!"wait(mb{mailbox}, c{comm})"
  | lock mutex => s!"lock(m{mutex})"
  | unlock mutex => s!"unlock(m{mutex})"
  | mutexWait => "mutex-wait"
  | mutexTest => "mutex-test"
  | access var mode => s!"{mode.text}(v{var})"

/-- An action names a mailbox iff it is a post to it or a wait at it. -/
theorem mailbox?_eq_some_iff {action : Action} {mailbox : MailboxId} :
    action.mailbox? = some mailbox ↔
      (∃ side comm, action = post side mailbox comm) ∨ ∃ comm, action = wait mailbox comm := by
  cases action <;> simp [mailbox?]

/-- The order of two actions matters in both directions or in none. -/
theorem conflicts_comm (a b : Action) : a.conflicts b = b.conflicts a := by
  cases a <;> cases b <;> simp [conflicts, eq_comm, Bool.or_comm]

end Action

/-! ### Transitions -/

/-- One step of one actor. -/
structure Transition extends Label where
  action : Action
  executed : Bool := false
deriving DecidableEq

namespace Transition

/-- An action that belongs to no sequence yet. -/
def unplaced (action : Action) : Transition := ⟨⟨0, 0⟩, action, false⟩

/-- The label of a transition. -/
abbrev label (t : Transition) : Label := t.toLabel

/-- Whether two transitions have one label. -/
def isSame (a b : Transition) : Bool := a.label = b.label

/-- Transitions compare by their labels. -/
instance : Ord Transition := ⟨compareOn label⟩

/-- Whether two transitions must keep their order: those of one actor always,
others if their actions conflict. -/
def dependsOn (a b : Transition) : Bool :=
  a.owner = b.owner || a.action.conflicts b.action

/-- The label and the action of a transition, as printed. -/
def text (t : Transition) : String := s!"{t.label.text}:{t.action.text}"

/-- Dependence is symmetric. -/
theorem dependsOn_comm (a b : Transition) : a.dependsOn b = b.dependsOn a := by
  simp [dependsOn, Action.conflicts_comm a.action, eq_comm]

end Transition

end Interleaving
