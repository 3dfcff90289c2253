import Interleaving.Trace
import Interleaving.Proofs.History

/-!
# Which histories can be fired

Whether a label can be fired after a history is a condition on labels alone:
`State.Admissible` compares the label with the labels before it and looks up
actions in the initial state, but follows no state.  `State.Refuses` says which
error there is when the condition fails.  `execute_after_of_admissible` and
`execute_after_of_refuses` show that one step in the state after a history is
decided by them; `replay_eq_ok_iff` and `replay_eq_error_iff` carry this over to
whole traces, by induction on the last label.
-/

namespace Interleaving

namespace State

/-- A post of `owner` with this number has found its partner: it is the r-th one
on its side, counted from 0, and more than r posts were made on the other side. -/
def Answered (s : State) (past : List Label) (owner : ActorId) (mailbox : MailboxId)
    (comm : CommId) : Prop :=
  ∃ (side : Side) (place : Nat) (l : Label), past[place]? = some l ∧ l.owner = owner ∧
    s.action? l = some (.post side mailbox comm) ∧
    (s.posts (past.take place) mailbox side).length <
      (s.posts past mailbox side.partner).length

/-- The label is the next one of its actor, and is no wait without an answer. -/
structure InTurn (s : State) (past : List Label) (l : Label) : Prop where
  position_eq : l.position = firedBy past l.owner
  position_lt : ∃ a, s.actors.get? l.owner = some a ∧ l.position < a.length
  answered : ∀ mailbox comm, s.action? l = some (.wait mailbox comm) →
    s.Answered past l.owner mailbox comm

/-- A log that the label posts to is below its bound. -/
def HasRoom (s : State) (past : List Label) (l : Label) : Prop :=
  ∀ side mailbox comm m capacity, s.action? l = some (.post side mailbox comm) →
    s.mailboxes.get? mailbox = some m → m.capacity = some capacity →
    (s.posts past mailbox side).length < capacity

/-- The label can be fired after the labels in `past`. -/
structure Admissible (s : State) (past : List Label) (l : Label) : Prop where
  inTurn : s.InTurn past l
  hasRoom : s.HasRoom past l

/-- The error when the label cannot be fired after the labels in `past`: a missing
actor comes first, then the turn of the label, and the bound comes last. -/
inductive Refuses (s : State) (past : List Label) (l : Label) : ModelError → Prop
  | unknownActor (hactor : s.actors.get? l.owner = none) :
      Refuses s past l (.unknownActor l.owner)
  | notEnabled {a : Actor} (hactor : s.actors.get? l.owner = some a)
      (hturn : ¬ s.InTurn past l) : Refuses s past l (.notEnabled l)
  | overCapacity {side : Side} {mailbox : MailboxId} {comm : CommId} {m : Mailbox}
      {capacity : Nat} (hturn : s.InTurn past l)
      (haction : s.action? l = some (.post side mailbox comm))
      (hm : s.mailboxes.get? mailbox = some m) (hcapacity : m.capacity = some capacity)
      (hfull : capacity ≤ (s.posts past mailbox side).length) :
      Refuses s past l (.overCapacity (.log side mailbox) capacity)

/-- A label can be fired or is refused. -/
theorem admissible_or_refuses (s : State) (past : List Label) (l : Label) :
    s.Admissible past l ∨ ∃ error, s.Refuses past l error := by
  by_cases hturn : s.InTurn past l
  · by_cases hroom : s.HasRoom past l
    · exact .inl ⟨hturn, hroom⟩
    · unfold HasRoom at hroom
      push Not at hroom
      obtain ⟨side, mailbox, comm, m, capacity, haction, hm, hcapacity, hfull⟩ := hroom
      exact .inr ⟨_, .overCapacity hturn haction hm hcapacity hfull⟩
  · cases hactor : s.actors.get? l.owner with
    | none => exact .inr ⟨_, .unknownActor hactor⟩
    | some a => exact .inr ⟨_, .notEnabled hactor hturn⟩

/-- The records of a mailbox after a history are matched as the history says. -/
theorem isMatched_after_iff (s : State) (past : List Label) (m : Mailbox) (owner : ActorId)
    (mailbox : MailboxId) (comm : CommId) :
    (m.holding (s.posts past mailbox)).isMatched owner comm = true ↔
      s.Answered past owner mailbox comm := by
  rw [Mailbox.isMatched_holding_iff]
  refine exists_congr fun side => ?_
  constructor
  · rintro ⟨index, hpost, hpartner⟩
    obtain ⟨place, l, hl, hposted, hlength⟩ := getElem?_filterMap_eq_some_iff.1 hpost
    obtain ⟨howner, haction⟩ := posted?_eq_some_iff.1 hposted
    exact ⟨place, l, hl, howner, haction, lt_of_eq_of_lt hlength hpartner⟩
  · rintro ⟨place, l, hl, howner, haction, hpartner⟩
    exact ⟨_, getElem?_filterMap_eq_some_iff.2
      ⟨place, l, hl, posted?_eq_some_iff.2 ⟨howner, haction⟩, rfl⟩, hpartner⟩

namespace IsInitial

variable {s : State}

theorem isReady_after_iff (h : s.IsInitial) (past : List Label) {t : Transition}
    (hnamed : ∀ mailbox, t.action.mailbox? = some mailbox →
      ∃ m, s.mailboxes.get? mailbox = some m) :
    (s.after past).isReady t = true ↔
      ∀ mailbox comm, t.action = .wait mailbox comm →
        s.Answered past t.owner mailbox comm := by
  unfold isReady
  split
  case h_1 mailbox comm hwait =>
    obtain ⟨m, hm⟩ := hnamed mailbox (Action.mailbox?_eq_some_iff.2 (.inr ⟨comm, hwait⟩))
    rw [h.get?_mailboxes_after_of_eq hm, hwait]
    simp only [Option.any_some, Mailbox.confirms, hwait, Action.comm?, isMatched_after_iff,
      Action.wait.injEq, and_imp]
    constructor
    · rintro hanswered _ _ rfl rfl
      exact hanswered
    · intro hall
      exact hall mailbox comm rfl rfl
  case h_2 hother =>
    simp only [true_iff]
    exact fun mailbox comm hwait => absurd hwait (hother mailbox comm)

theorem mem_transitions {l : Label} {actions : List Action} {action : Action}
    (haction : actions[l.position]? = some action) :
    (⟨l, action, false⟩ : Transition) ∈ (Actor.ofActions l.owner actions).transitions := by
  refine List.mem_iff_getElem?.2 ⟨l.position, ?_⟩
  rw [Actor.getElem?_transitions_ofActions, haction]
  rfl

/-- A label with an action names an existing actor and only existing mailboxes. -/
theorem exists_mailbox (h : s.IsInitial) {l : Label} {action : Action}
    (haction : s.action? l = some action) {mailbox : MailboxId}
    (hmailbox : action.mailbox? = some mailbox) : ∃ m, s.mailboxes.get? mailbox = some m := by
  obtain ⟨a, ha, hsome⟩ := Option.bind_eq_some_iff.1 haction
  obtain ⟨actions, rfl⟩ := h.actor_eq ha
  rw [Actor.getElem?_transitions_ofActions, Option.map_map] at hsome
  obtain ⟨_, hindex, rfl⟩ := Option.map_eq_some_iff.1 hsome
  exact h.named ha (mem_transitions hindex) hmailbox

/-- What the owner of a label offers after a history, if it is the turn of the label. -/
theorem offer?_after_eq_some_iff (h : s.IsInitial) (past : List Label) {owner : ActorId}
    {a : Actor} (ha : s.actors.get? owner = some a) {t : Transition} :
    (s.after past).offer? (a.advanced (firedBy past owner)) = some t ↔
      t.owner = owner ∧ s.InTurn past t.label ∧ s.action? t.label = some t.action ∧
        t.executed = false := by
  obtain ⟨actions, rfl⟩ := h.actor_eq ha
  unfold offer?
  rw [Actor.next?_advanced, Option.filter_eq_some_iff, Option.map_eq_some_iff]
  constructor
  · -- The offered transition stands where the history has counted to.
    rintro ⟨⟨action, hindex, rfl⟩, hready⟩
    have haction : s.action? ⟨firedBy past owner, owner⟩ = some action := by
      rw [action?_of_ofActions ha, hindex]
    rw [h.isReady_after_iff past fun _ => h.exists_mailbox haction] at hready
    refine ⟨rfl, ⟨rfl, ⟨_, ha, ?_⟩, ?_⟩, haction, rfl⟩
    · have hlt := (List.getElem?_eq_some_iff.1 hindex).1
      simpa [Actor.length, Actor.ofActions] using hlt
    · intro mailbox comm hwait
      rw [haction] at hwait
      exact hready mailbox comm (Option.some.inj hwait)
  · rintro ⟨rfl, hturn, haction, hexecuted⟩
    have hready := h.isReady_after_iff past (t := t) fun _ => h.exists_mailbox haction
    refine ⟨⟨t.action, ?_, ?_⟩, hready.2 fun mailbox comm hwait => ?_⟩
    · rw [← hturn.position_eq, ← action?_of_ofActions ha, haction]
    · obtain ⟨⟨position, owner⟩, action, executed⟩ := t
      cases hexecuted
      rw [← hturn.position_eq]
    · exact hturn.answered mailbox comm (by rw [haction, hwait])

/-- Delivering a transition when nothing bounds it. -/
theorem deliver_after_of_hasRoom (h : s.IsInitial) {past : List Label} {t : Transition}
    (haction : s.action? t.label = some t.action) (hroom : s.HasRoom past t.label) :
    (s.after past).deliver t = .ok (s.after (past ++ [t.label])).mailboxes := by
  unfold deliver
  split
  case h_1 side mailbox comm hpost =>
    rw [hpost] at haction
    obtain ⟨m, hm⟩ := h.exists_mailbox haction rfl
    rw [h.get?_mailboxes_after_of_eq hm, ← h.mailboxes_after_of_post past haction hm]
    simp only [Mailbox.update, hpost, Mailbox.id_holding, h.mailbox_id hm, if_true, Mailbox.post,
      Mailbox.capacity_holding, Mailbox.log_holding, length_recordsOf]
    cases hcapacity : m.capacity with
    | none => rfl
    | some capacity =>
        have hlt := hroom side mailbox comm m capacity haction hm hcapacity
        simp only [hlt, if_true]
        rfl
  case h_2 hother =>
    rw [mailboxes_after_of_not_post past]
    intro side mailbox comm hpost
    rw [haction, Option.some.injEq] at hpost
    exact hother side mailbox comm hpost

/-- Delivering a post to a log that is full. -/
theorem deliver_after_of_full (h : s.IsInitial) {past : List Label} {t : Transition}
    {side : Side} {mailbox : MailboxId} {comm : CommId} {m : Mailbox} {capacity : Nat}
    (hpost : t.action = .post side mailbox comm) (hm : s.mailboxes.get? mailbox = some m)
    (hcapacity : m.capacity = some capacity)
    (hfull : capacity ≤ (s.posts past mailbox side).length) :
    (s.after past).deliver t = .error (.overCapacity (.log side mailbox) capacity) := by
  have hnot : ¬ (s.posts past mailbox side).length < capacity := by omega
  unfold deliver
  rw [hpost]
  simp only [h.get?_mailboxes_after_of_eq hm, Mailbox.update, hpost, Mailbox.id_holding,
    h.mailbox_id hm, if_true, Mailbox.post, Mailbox.capacity_holding, hcapacity,
    Mailbox.log_holding, length_recordsOf, hnot, if_false]
  rfl

/-- An actor in its turn offers the transition with the label. -/
theorem exists_offer_after (h : s.IsInitial) {past : List Label} {l : Label}
    (hturn : s.InTurn past l) :
    ∃ a action, s.actors.get? l.owner = some a ∧ s.action? l = some action ∧
      (s.after past).offer? (a.advanced (firedBy past l.owner)) = some ⟨l, action, false⟩ := by
  obtain ⟨a, ha, hlt⟩ := hturn.position_lt
  have haction : s.action? l = some a.transitions[l.position].action := by
    simp [action?, ha, List.getElem?_eq_getElem hlt]
  exact ⟨a, _, ha, haction,
    (h.offer?_after_eq_some_iff past ha).2 ⟨rfl, hturn, haction, rfl⟩⟩

/-- **One step.**  An admissible label extends the history. -/
theorem execute_after_of_admissible (h : s.IsInitial) {past : List Label} {l : Label}
    (hl : s.Admissible past l) : (s.after past).execute l = .ok (s.after (past ++ [l])) := by
  obtain ⟨a, action, ha, haction, hoffer⟩ := h.exists_offer_after hl.inTurn
  have hactors := h.actors_after_append past ha
  have hdeliver := h.deliver_after_of_hasRoom (t := ⟨l, action, false⟩) haction hl.hasRoom
  unfold execute
  simp only [h.get?_actors_after_of_eq ha, hoffer, hdeliver, if_true]
  rw [hl.inTurn.position_eq, Actor.markExecuted_advanced, hactors]
  rfl

/-- **One step.**  A label that is refused gives the error of the refusal. -/
theorem execute_after_of_refuses (h : s.IsInitial) {past : List Label} {l : Label}
    {error : ModelError} (hl : s.Refuses past l error) :
    (s.after past).execute l = .error error := by
  cases hl with
  | unknownActor hactor =>
      unfold execute
      simp only [get?_actors_after, hactor, Option.map_none]
  | @notEnabled a hactor hturn =>
      unfold execute
      simp only [h.get?_actors_after_of_eq hactor]
      cases hoffer : (s.after past).offer? (a.advanced (firedBy past l.owner)) with
      | none => rfl
      | some t =>
          obtain ⟨howner, hturn', -, -⟩ := (h.offer?_after_eq_some_iff past hactor).1 hoffer
          -- The owner offers another one of its transitions.
          have hposition : t.position ≠ l.position := fun heq => by
            have hlabel : t.label = l := Label.ext heq howner
            exact hturn (hlabel ▸ hturn')
          simp only [hposition, if_false]
  | @overCapacity side mailbox comm m capacity hturn haction hm hcapacity hfull =>
      obtain ⟨a, action, ha, haction', hoffer⟩ := h.exists_offer_after hturn
      have hpost : action = .post side mailbox comm :=
        Option.some.inj (haction'.symm.trans haction)
      have hdeliver := h.deliver_after_of_full (t := ⟨l, action, false⟩) hpost hm hcapacity hfull
      unfold execute
      simp only [h.get?_actors_after_of_eq ha, hoffer, hdeliver, if_true]
      rfl

end IsInitial

end State

end Interleaving
