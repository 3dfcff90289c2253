import Interleaving.State
import Interleaving.Proofs.Construction
import Interleaving.Proofs.Rendezvous

/-!
# States as functions of a history

A history is the list of the labels that were fired.  `State.after` says what
state a history leads to, without firing anything: each actor has executed as
many transitions as the history has labels of it, and each mailbox holds what
the history posts to it.  The lemmas say how one more label changes this state
and what the parts of a step see in it.
-/

namespace Interleaving

attribute [ext] Label Actor State

/-- The elements that a partial function keeps, by the places they come from. -/
theorem getElem?_filterMap_eq_some_iff {α β : Type} {f : α → Option β} {xs : List α}
    {index : Nat} {y : β} :
    (xs.filterMap f)[index]? = some y ↔
      ∃ (place : Nat) (x : α), xs[place]? = some x ∧ f x = some y ∧
        ((xs.take place).filterMap f).length = index := by
  induction xs generalizing index with
  | nil => simp
  | cons x xs ih =>
      -- The first element is dropped, is the one looked for, or comes before it.
      have hsplit : (∃ (place : Nat) (z : α), (x :: xs)[place]? = some z ∧ f z = some y ∧
            (((x :: xs).take place).filterMap f).length = index) ↔
          (f x = some y ∧ index = 0) ∨
            ∃ (place : Nat) (z : α), xs[place]? = some z ∧ f z = some y ∧
              ((x :: xs.take place).filterMap f).length = index := by
        constructor
        · rintro ⟨place, z, hz, hy, hlength⟩
          cases place with
          | zero =>
              cases hz
              exact .inl ⟨hy, hlength.symm⟩
          | succ place => exact .inr ⟨place, z, hz, hy, hlength⟩
        · rintro (⟨hy, rfl⟩ | ⟨place, z, hz, hy, hlength⟩)
          · exact ⟨0, x, rfl, hy, rfl⟩
          · exact ⟨place + 1, z, hz, hy, hlength⟩
      rw [hsplit]
      cases hx : f x with
      | none => simp [List.filterMap_cons_none hx, ih]
      | some z =>
          simp only [List.filterMap_cons_some hx, List.length_cons]
          cases index with
          | zero => simp
          | succ index => simp [ih]

/-- How many labels of a history belong to an actor. -/
def firedBy (fired : List Label) (owner : ActorId) : Nat :=
  fired.countP fun l => l.owner = owner

theorem firedBy_append_singleton (fired : List Label) (l : Label) (owner : ActorId) :
    firedBy (fired ++ [l]) owner =
      if l.owner = owner then firedBy fired owner + 1 else firedBy fired owner := by
  by_cases h : l.owner = owner <;> simp [firedBy, h]

theorem firedBy_take_lt {fired : List Label} {index : Nat} {l : Label}
    (hl : fired[index]? = some l) :
    firedBy (fired.take index) l.owner < firedBy fired l.owner := by
  have hnext : firedBy (fired.take (index + 1)) l.owner =
      firedBy (fired.take index) l.owner + 1 := by
    rw [List.take_add_one, hl, Option.toList_some, firedBy_append_singleton, if_pos rfl]
  have hle : firedBy (fired.take (index + 1)) l.owner ≤ firedBy fired l.owner :=
    (List.take_sublist (index + 1) fired).countP_le
  omega

namespace Actor

/-- The actor with exactly its first `count` transitions executed. -/
def advanced (a : Actor) (count : Nat) : Actor :=
  { a with transitions := a.transitions.mapIdx fun index t => { t with executed := index < count } }

@[simp] theorem getElem?_transitions_ofActions (id : ActorId) (actions : List Action)
    (index : Nat) : (ofActions id actions).transitions[index]? =
      actions[index]?.map fun action => ⟨⟨index, id⟩, action, false⟩ := by
  simp [ofActions]

theorem advanced_ofActions_zero (id : ActorId) (actions : List Action) :
    (ofActions id actions).advanced 0 = ofActions id actions := by
  simp [advanced, ofActions, List.mapIdx_mapIdx, Function.comp_def]

/-- The first transition that is not marked stands behind the marked ones. -/
theorem find?_mapIdx_executed (count : Nat) (transitions : List Transition) :
    ((transitions.mapIdx fun index t => { t with executed := decide (index < count) }).find?
        fun t => !t.executed) =
      transitions[count]?.map fun t => { t with executed := false } := by
  induction transitions generalizing count with
  | nil => rfl
  | cons t transitions ih =>
      rw [List.mapIdx_cons]
      cases count with
      | zero => simp
      | succ count => simp [ih]

/-- After its first `count` transitions an actor goes on with the next one. -/
theorem next?_advanced (id : ActorId) (actions : List Action) (count : Nat) :
    ((ofActions id actions).advanced count).next? =
      actions[count]?.map fun action => ⟨⟨count, id⟩, action, false⟩ := by
  unfold next? advanced
  rw [find?_mapIdx_executed, getElem?_transitions_ofActions, Option.map_map]
  rfl

theorem markExecuted_advanced (a : Actor) (count : Nat) :
    (a.advanced count).markExecuted count = a.advanced (count + 1) := by
  apply Actor.ext
  · rfl
  · -- Only at index `count` do the marks on both sides differ from those before.
    apply List.ext_getElem?
    intro index
    simp only [markExecuted, advanced, List.getElem?_modify, List.getElem?_mapIdx]
    cases a.transitions[index]? with
    | none => rfl
    | some t =>
        by_cases hindex : count = index
        · simp [hindex]
        · have hiff : index < count ↔ index < count + 1 := by omega
          simp [hindex, hiff]

end Actor

namespace State

/-- The action that the transition with a label performs. -/
def action? (s : State) (l : Label) : Option Action :=
  (s.actors.get? l.owner).bind fun a => a.transitions[l.position]?.map Transition.action

theorem action?_eq_some_iff {s : State} {l : Label} {action : Action} :
    s.action? l = some action ↔ ∃ a t, s.actors.get? l.owner = some a ∧
      a.transitions[l.position]? = some t ∧ t.action = action := by
  simp [action?, Option.bind_eq_some_iff]

/-- Each transition of an actor has a place, and so a label that performs its action. -/
theorem exists_label_of_mem {s : State} {id : ActorId} {a : Actor} {t : Transition}
    (ha : s.actors.get? id = some a) (ht : t ∈ a.transitions) :
    ∃ l, l.owner = id ∧ s.action? l = some t.action := by
  obtain ⟨index, hindex⟩ := List.mem_iff_getElem?.1 ht
  exact ⟨⟨index, id⟩, rfl, action?_eq_some_iff.2 ⟨a, t, ha, hindex, rfl⟩⟩

/-- In an actor that was newly placed the positions are the indexes. -/
theorem action?_of_ofActions {s : State} {l : Label} {actions : List Action}
    (h : s.actors.get? l.owner = some (Actor.ofActions l.owner actions)) :
    s.action? l = actions[l.position]? := by
  simp [action?, h, Function.comp_def]

/-- What firing a label posts to one side of a mailbox. -/
def posted? (s : State) (mailbox : MailboxId) (side : Side) (l : Label) : Option Posting :=
  match s.action? l with
  | some (.post side' mailbox' comm) =>
      if mailbox' = mailbox ∧ side' = side then some (l.owner, comm) else none
  | _ => none

/-- What a history posts to one side of a mailbox, in order. -/
def posts (s : State) (fired : List Label) (mailbox : MailboxId) (side : Side) : List Posting :=
  fired.filterMap (s.posted? mailbox side)

/-- The state after a history: actors have executed as many transitions as labels
of them were fired, mailboxes hold what was posted, all else is as in `s`. -/
def after (s : State) (fired : List Label) : State where
  actors := s.actors.map fun a => a.advanced (firedBy fired a.id)
  mailboxes := s.mailboxes.map fun m => m.holding (s.posts fired m.id)

@[simp] theorem get?_actors_after (s : State) (fired : List Label) (id : ActorId) :
    (s.after fired).actors.get? id =
      (s.actors.get? id).map fun a => a.advanced (firedBy fired a.id) :=
  Table.get?_map _ _ _

@[simp] theorem get?_mailboxes_after (s : State) (fired : List Label) (id : MailboxId) :
    (s.after fired).mailboxes.get? id =
      (s.mailboxes.get? id).map fun m => m.holding (s.posts fired m.id) :=
  Table.get?_map _ _ _

/-- The state after a history depends on how much of each actor was fired and on what was
posted. -/
theorem after_congr {s : State} {fired fired' : List Label}
    (hfired : ∀ owner, firedBy fired owner = firedBy fired' owner)
    (hposts : ∀ mailbox side, s.posts fired mailbox side = s.posts fired' mailbox side) :
    s.after fired = s.after fired' := by
  have hlogs : ∀ mailbox, s.posts fired mailbox = s.posts fired' mailbox :=
    fun mailbox => funext (hposts mailbox)
  simp only [after, hfired, hlogs]

theorem posted?_eq_some_iff {s : State} {mailbox : MailboxId} {side : Side} {l : Label}
    {owner : ActorId} {comm : CommId} :
    s.posted? mailbox side l = some (owner, comm) ↔
      l.owner = owner ∧ s.action? l = some (.post side mailbox comm) := by
  unfold posted?
  split
  case h_1 side' mailbox' comm' haction =>
    rw [haction]
    by_cases hsame : mailbox' = mailbox ∧ side' = side
    · obtain ⟨rfl, rfl⟩ := hsame
      simp
    · rw [if_neg hsame]
      simp only [reduceCtorEq, Option.some.injEq, Action.post.injEq, false_iff]
      tauto
  case h_2 hother =>
    simp only [reduceCtorEq, false_iff, not_and]
    exact fun _ haction => hother _ _ _ haction

theorem posted?_of_post {s : State} {side side' : Side} {mailbox mailbox' : MailboxId}
    {comm : CommId} {l : Label} (h : s.action? l = some (.post side' mailbox' comm)) :
    s.posted? mailbox side l =
      if mailbox' = mailbox ∧ side' = side then some (l.owner, comm) else none := by
  simp [posted?, h]

theorem posted?_of_not_post {s : State} {l : Label} (mailbox : MailboxId) (side : Side)
    (h : ∀ side' mailbox' comm, s.action? l ≠ some (.post side' mailbox' comm)) :
    s.posted? mailbox side l = none := by
  unfold posted?
  split
  · next haction => exact absurd haction (h _ _ _)
  · rfl

/-- Of two labels that do not both post to this log one posts nothing to it. -/
theorem posted?_eq_none_or {s : State} {mailbox : MailboxId} {side : Side} {l l' : Label}
    (h : ∀ comm comm', s.action? l = some (.post side mailbox comm) →
      s.action? l' ≠ some (.post side mailbox comm')) :
    s.posted? mailbox side l = none ∨ s.posted? mailbox side l' = none := by
  by_contra hboth
  push Not at hboth
  obtain ⟨⟨owner, comm⟩, hpost⟩ := Option.ne_none_iff_exists'.1 hboth.1
  obtain ⟨⟨owner', comm'⟩, hpost'⟩ := Option.ne_none_iff_exists'.1 hboth.2
  exact h comm comm' (posted?_eq_some_iff.1 hpost).2 (posted?_eq_some_iff.1 hpost').2

theorem posts_append_singleton (s : State) (fired : List Label) (l : Label)
    (mailbox : MailboxId) (side : Side) :
    s.posts (fired ++ [l]) mailbox side =
      s.posts fired mailbox side ++ (s.posted? mailbox side l).toList := by
  simp only [posts, List.filterMap_append]
  cases h : s.posted? mailbox side l <;> simp [h]

namespace IsInitial

variable {s : State}

theorem actor_id (h : s.IsInitial) {id : ActorId} {a : Actor}
    (ha : s.actors.get? id = some a) : a.id = id := by
  obtain ⟨actions, rfl⟩ := h.actor_eq ha
  rfl

theorem mailbox_id (h : s.IsInitial) {id : MailboxId} {m : Mailbox}
    (hm : s.mailboxes.get? id = some m) : m.id = id := by
  obtain ⟨capacity, rfl⟩ := h.mailbox_eq hm
  rfl

theorem get?_actors_after_of_eq (h : s.IsInitial) {id : ActorId} {a : Actor}
    (ha : s.actors.get? id = some a) (fired : List Label) :
    (s.after fired).actors.get? id = some (a.advanced (firedBy fired id)) := by
  rw [get?_actors_after, ha, Option.map_some, h.actor_id ha]

theorem get?_mailboxes_after_of_eq (h : s.IsInitial) {id : MailboxId} {m : Mailbox}
    (hm : s.mailboxes.get? id = some m) (fired : List Label) :
    (s.after fired).mailboxes.get? id = some (m.holding (s.posts fired id)) := by
  rw [get?_mailboxes_after, hm, Option.map_some, h.mailbox_id hm]

theorem after_nil (h : s.IsInitial) : s.after [] = s := by
  apply State.ext
  · apply Table.ext_get?
    intro id
    cases ha : s.actors.get? id with
    | none => simp [ha]
    | some a =>
        obtain ⟨actions, rfl⟩ := h.actor_eq ha
        rw [h.get?_actors_after_of_eq ha]
        exact congrArg some (Actor.advanced_ofActions_zero id actions)
  · apply Table.ext_get?
    intro id
    cases hm : s.mailboxes.get? id with
    | none => simp [hm]
    | some m =>
        obtain ⟨capacity, rfl⟩ := h.mailbox_eq hm
        rw [h.get?_mailboxes_after_of_eq hm]
        exact congrArg some (Mailbox.holding_fresh id capacity)

/-- One more label of an actor marks one more transition, and no other actor
changes. -/
theorem actors_after_append (h : s.IsInitial) (fired : List Label) {l : Label} {a : Actor}
    (ha : s.actors.get? l.owner = some a) :
    (s.after fired).actors.insert l.owner (a.advanced (firedBy fired l.owner + 1)) =
      (s.after (fired ++ [l])).actors := by
  apply Table.ext_get?
  intro id
  rw [Table.get?_insert]
  by_cases hid : id = l.owner
  · subst hid
    rw [if_pos rfl, h.get?_actors_after_of_eq ha, firedBy_append_singleton, if_pos rfl]
  · rw [if_neg hid]
    cases hother : s.actors.get? id with
    | none => simp [hother]
    | some b =>
        have hne : l.owner ≠ id := fun heq => hid heq.symm
        rw [h.get?_actors_after_of_eq hother, h.get?_actors_after_of_eq hother,
          firedBy_append_singleton, if_neg hne]

/-- A label that posts nothing changes no mailbox. -/
theorem mailboxes_after_of_not_post (fired : List Label) {l : Label}
    (hnot : ∀ side mailbox comm, s.action? l ≠ some (.post side mailbox comm)) :
    (s.after (fired ++ [l])).mailboxes = (s.after fired).mailboxes := by
  have hposts : ∀ mailbox, s.posts (fired ++ [l]) mailbox = s.posts fired mailbox := by
    intro mailbox
    funext side
    rw [posts_append_singleton, posted?_of_not_post mailbox side hnot]
    simp
  simp only [after, hposts]

/-- A label that posts changes the mailbox that it names, and no other one. -/
theorem mailboxes_after_of_post (h : s.IsInitial) (fired : List Label) {l : Label} {side : Side}
    {mailbox : MailboxId} {comm : CommId} {m : Mailbox}
    (haction : s.action? l = some (.post side mailbox comm))
    (hm : s.mailboxes.get? mailbox = some m) :
    (s.after fired).mailboxes.insert mailbox
        ((m.holding (s.posts fired mailbox)).append side l.owner comm) =
      (s.after (fired ++ [l])).mailboxes := by
  -- Of all logs only the one that the label names grows.
  have hposts : ∀ id other, s.posts (fired ++ [l]) id other = s.posts fired id other ++
      (if mailbox = id ∧ side = other then some (l.owner, comm) else none).toList := by
    intro id other
    rw [posts_append_singleton, posted?_of_post haction]
  apply Table.ext_get?
  intro id
  rw [Table.get?_insert]
  by_cases hid : id = mailbox
  · subst hid
    rw [if_pos rfl, h.get?_mailboxes_after_of_eq hm]
    refine congrArg some (Mailbox.append_holding m ?_ ?_)
    · simp [hposts]
    · simp [hposts, side.partner_ne.symm]
  · rw [if_neg hid]
    cases hother : s.mailboxes.get? id with
    | none => simp [hother]
    | some n =>
        have hsame : s.posts (fired ++ [l]) id = s.posts fired id := by
          funext other
          have hne : ¬ mailbox = id := fun heq => hid heq.symm
          simp [hposts, hne]
        rw [h.get?_mailboxes_after_of_eq hother, h.get?_mailboxes_after_of_eq hother, hsame]

end IsInitial

end State

end Interleaving
