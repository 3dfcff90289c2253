import Interleaving.Proofs.Filing
import Interleaving.Proofs.Listing
import Interleaving.Proofs.Replay

/-!
# One step in any state

What a single step does in a state with any marks and any logs
(`State.execute_eq_ok_iff`, `State.get?_of_deliver`).  Two conditions are kept by
every step: `State.IsSound`, which whatever makes a state has checked, and
`State.IsPlaced`, that transitions stand where their labels say.  The first one
holds of every state that can be obtained at all (`State.IsObtained`).
-/

namespace Interleaving

theorem map_eq_ok_iff {ε α β : Type} {f : α → β} {x : Except ε α} {b : β} :
    x.map f = .ok b ↔ ∃ a, x = .ok a ∧ f a = b := by
  cases x <;> simp [Except.map]

theorem map_eq_error_iff {ε α β : Type} {f : α → β} {x : Except ε α} {error : ε} :
    x.map f = .error error ↔ x = .error error := by
  cases x <;> simp [Except.map]

namespace Mailbox

/-- One more record fits into the log of this side. -/
def HasRoom (m : Mailbox) (side : Side) : Prop :=
  ∀ capacity, m.capacity = some capacity → (m.log side).length < capacity

theorem post_of_hasRoom {m : Mailbox} {side : Side} (h : m.HasRoom side) (owner : ActorId)
    (comm : CommId) : m.post side owner comm = .ok (m.append side owner comm) := by
  unfold post
  cases hcapacity : m.capacity with
  | none => rfl
  | some capacity => exact if_pos (h capacity hcapacity)

theorem post_of_full {m : Mailbox} {side : Side} {capacity : Nat}
    (hcapacity : m.capacity = some capacity) (hfull : capacity ≤ (m.log side).length)
    (owner : ActorId) (comm : CommId) :
    m.post side owner comm = .error (.overCapacity (.log side m.id) capacity) := by
  unfold post
  rw [hcapacity]
  exact if_neg (by omega)

theorem hasRoom_or_full (m : Mailbox) (side : Side) :
    m.HasRoom side ∨
      ∃ capacity, m.capacity = some capacity ∧ capacity ≤ (m.log side).length := by
  unfold HasRoom
  by_contra hnot
  push Not at hnot
  obtain ⟨⟨capacity, hcapacity, hle⟩, hnone⟩ := hnot
  have hlt := hnone capacity hcapacity
  omega

theorem post_eq_error_iff {m : Mailbox} {side : Side} {owner : ActorId} {comm : CommId}
    {error : ModelError} :
    m.post side owner comm = .error error ↔ ∃ capacity, m.capacity = some capacity ∧
      capacity ≤ (m.log side).length ∧ error = .overCapacity (.log side m.id) capacity := by
  constructor
  · intro h
    rcases m.hasRoom_or_full side with hroom | ⟨capacity, hcapacity, hfull⟩
    · rw [post_of_hasRoom hroom] at h
      cases h
    · rw [post_of_full hcapacity hfull] at h
      cases h
      exact ⟨capacity, hcapacity, hfull, rfl⟩
  · rintro ⟨capacity, hcapacity, hfull, rfl⟩
    exact post_of_full hcapacity hfull owner comm

theorem update_of_post {m : Mailbox} {t : Transition} {side : Side} {comm : CommId}
    (h : t.action = .post side m.id comm) : m.update t = m.post side t.owner comm := by
  simp [update, h]

theorem update_eq_ok_iff {m m' : Mailbox} {t : Transition} :
    m.update t = .ok m' ↔ ∃ side comm, t.action = .post side m.id comm ∧ m.HasRoom side ∧
      m' = m.append side t.owner comm := by
  constructor
  · intro h
    have hpost : ∃ side comm, t.action = .post side m.id comm := by
      unfold update at h
      split at h
      case h_2 => cases h
      case h_1 side mailbox comm haction =>
        split at h
        case isFalse => cases h
        case isTrue hid => exact ⟨side, comm, hid ▸ haction⟩
    obtain ⟨side, comm, haction⟩ := hpost
    rw [update_of_post haction] at h
    rcases m.hasRoom_or_full side with hroom | ⟨capacity, hcapacity, hfull⟩
    · rw [post_of_hasRoom hroom] at h
      cases h
      exact ⟨side, comm, haction, hroom, rfl⟩
    · rw [post_of_full hcapacity hfull] at h
      cases h
  · rintro ⟨side, comm, haction, hroom, rfl⟩
    rw [update_of_post haction, post_of_hasRoom hroom]

theorem id_of_update {m m' : Mailbox} {t : Transition} (h : m.update t = .ok m') :
    m'.id = m.id := by
  obtain ⟨side, comm, -, -, rfl⟩ := update_eq_ok_iff.1 h
  exact id_append m side t.owner comm

end Mailbox

namespace Actor

theorem getElem?_markExecuted (a : Actor) (position index : Nat) :
    (a.markExecuted position).transitions[index]? = a.transitions[index]?.map fun t =>
      if position = index then { t with executed := true } else t := by
  unfold markExecuted
  rw [List.getElem?_modify]
  split <;> simp

/-- Each transition has its index as position and the actor as owner. -/
def IsPlaced (a : Actor) : Prop :=
  ∀ (index : Nat) (t : Transition), a.transitions[index]? = some t →
    t.position = index ∧ t.owner = a.id

theorem IsPlaced.owner_eq {a : Actor} (h : a.IsPlaced) {t : Transition}
    (ht : t ∈ a.transitions) : t.owner = a.id := by
  obtain ⟨index, hindex⟩ := List.mem_iff_getElem?.1 ht
  exact (h index t hindex).2

theorem isPlaced_ofActions (id : ActorId) (actions : List Action) :
    (ofActions id actions).IsPlaced := by
  intro index t ht
  rw [getElem?_transitions_ofActions] at ht
  obtain ⟨action, -, rfl⟩ := Option.map_eq_some_iff.1 ht
  exact ⟨rfl, rfl⟩

theorem IsPlaced.markExecuted {a : Actor} (h : a.IsPlaced) (position : Nat) :
    (a.markExecuted position).IsPlaced := by
  intro index t ht
  rw [getElem?_markExecuted] at ht
  obtain ⟨u, hu, rfl⟩ := Option.map_eq_some_iff.1 ht
  have hplaced := h index u hu
  split <;> exact hplaced

end Actor

namespace State

variable {s s' : State}

theorem offer?_eq_some_iff {a : Actor} {t : Transition} :
    s.offer? a = some t ↔ a.next? = some t ∧ s.isReady t = true :=
  Option.filter_eq_some_iff

theorem deliver_of_not_post {t : Transition}
    (h : ∀ side mailbox comm, t.action ≠ .post side mailbox comm) :
    s.deliver t = .ok s.mailboxes := by
  unfold deliver
  split
  case h_1 side mailbox comm haction => exact absurd haction (h side mailbox comm)
  case h_2 => rfl

theorem deliver_of_post {t : Transition} {side : Side} {mailbox : MailboxId} {comm : CommId}
    {m : Mailbox} (haction : t.action = .post side mailbox comm)
    (hm : s.mailboxes.get? mailbox = some m) :
    s.deliver t = (m.update t).map (s.mailboxes.insert mailbox) := by
  unfold deliver
  rw [haction]
  simp only [hm]

theorem deliver_eq_ok_cases {t : Transition} {mailboxes : Table Mailbox}
    (h : s.deliver t = .ok mailboxes) :
    (∃ side mailbox comm m m', t.action = .post side mailbox comm ∧
        s.mailboxes.get? mailbox = some m ∧ m.update t = .ok m' ∧
        mailboxes = s.mailboxes.insert mailbox m') ∨
      ((∀ side mailbox comm, t.action ≠ .post side mailbox comm) ∧
        mailboxes = s.mailboxes) := by
  by_cases hpost : ∃ side mailbox comm, t.action = .post side mailbox comm
  · obtain ⟨side, mailbox, comm, haction⟩ := hpost
    cases hm : s.mailboxes.get? mailbox with
    | none =>
        unfold deliver at h
        rw [haction] at h
        simp only [hm] at h
        cases h
    | some m =>
        rw [deliver_of_post haction hm, map_eq_ok_iff] at h
        obtain ⟨m', hupdate, rfl⟩ := h
        exact .inl ⟨side, mailbox, comm, m, m', haction, hm, hupdate, rfl⟩
  · have hnot : ∀ side mailbox comm, t.action ≠ .post side mailbox comm :=
      fun side mailbox comm haction => hpost ⟨side, mailbox, comm, haction⟩
    rw [deliver_of_not_post hnot] at h
    cases h
    exact .inr ⟨hnot, rfl⟩

/-- What is filed under a number after a delivery: the updated mailbox if the
transition posts there, and otherwise what was there before. -/
theorem get?_of_deliver {t : Transition} {mailboxes : Table Mailbox}
    (h : s.deliver t = .ok mailboxes) (id : MailboxId) :
    (∃ side comm m m', t.action = .post side id comm ∧ s.mailboxes.get? id = some m ∧
        m.update t = .ok m' ∧ mailboxes.get? id = some m') ∨
      ((∀ side comm, t.action ≠ .post side id comm) ∧
        mailboxes.get? id = s.mailboxes.get? id) := by
  rcases deliver_eq_ok_cases h with
    ⟨side, mailbox, comm, m, m', haction, hm, hupdate, rfl⟩ | ⟨hnot, rfl⟩
  · by_cases hid : id = mailbox
    · subst hid
      exact .inl ⟨side, comm, m, m', haction, hm, hupdate, Table.get?_insert_self ..⟩
    · refine .inr ⟨fun side' comm' haction' => hid ?_, Table.get?_insert_of_ne _ _ hid⟩
      rw [haction, Action.post.injEq] at haction'
      exact haction'.2.1.symm
  · exact .inr ⟨fun side comm => hnot side id comm, rfl⟩

/-- What an actor offers is one of its transitions. -/
theorem mem_of_offer? {a : Actor} {t : Transition} (h : s.offer? a = some t) :
    t ∈ a.transitions :=
  List.mem_of_find?_eq_some (offer?_eq_some_iff.1 h).1

theorem execute_of_get?_eq_none {l : Label} (h : s.actors.get? l.owner = none) :
    s.execute l = .error (.unknownActor l.owner) := by
  unfold execute
  rw [h]

theorem execute_of_offer? {l : Label} {a : Actor} {t : Transition}
    (hactor : s.actors.get? l.owner = some a) (hoffer : s.offer? a = some t)
    (hposition : t.position = l.position) :
    s.execute l = (s.deliver t).map fun mailboxes =>
      ⟨s.actors.insert l.owner (a.markExecuted l.position), mailboxes⟩ := by
  unfold execute
  simp only [hactor, hoffer, hposition, if_true]

theorem execute_of_not_offered {l : Label} {a : Actor} (hactor : s.actors.get? l.owner = some a)
    (hnot : ∀ t, s.offer? a = some t → t.position ≠ l.position) :
    s.execute l = .error (.notEnabled l) := by
  unfold execute
  simp only [hactor]
  cases hoffer : s.offer? a with
  | none => rfl
  | some t => exact if_neg (hnot t hoffer)

/-- A step succeeds iff the owner of the label offers a transition with its position
and that transition can be delivered. -/
theorem execute_eq_ok_iff {l : Label} :
    s.execute l = .ok s' ↔ ∃ a t mailboxes, s.actors.get? l.owner = some a ∧
      s.offer? a = some t ∧ t.position = l.position ∧ s.deliver t = .ok mailboxes ∧
      s' = ⟨s.actors.insert l.owner (a.markExecuted l.position), mailboxes⟩ := by
  unfold execute
  constructor
  · intro h
    split at h
    case h_1 => cases h
    case h_2 a ha =>
      split at h
      case h_1 => cases h
      case h_2 t ht =>
        split at h
        case isFalse => cases h
        case isTrue hposition =>
          obtain ⟨mailboxes, hdeliver, rfl⟩ := map_eq_ok_iff.1 h
          exact ⟨a, t, mailboxes, ha, ht, hposition, hdeliver, rfl⟩
  · rintro ⟨a, t, mailboxes, ha, ht, hposition, hdeliver, rfl⟩
    simp only [ha, ht, hposition, hdeliver, if_true]
    rfl

/-- A step changes no action and moves no transition. -/
theorem action?_of_execute {l : Label} (h : s.execute l = .ok s') (l' : Label) :
    s'.action? l' = s.action? l' := by
  obtain ⟨a, t, mailboxes, ha, -, -, -, rfl⟩ := execute_eq_ok_iff.1 h
  unfold action?
  rw [Table.get?_insert]
  by_cases howner : l'.owner = l.owner
  · rw [if_pos howner, howner, ha, Option.bind_some, Option.bind_some,
      Actor.getElem?_markExecuted, Option.map_map]
    congr 1
    funext t
    show (if _ then _ else t).action = t.action
    split <;> rfl
  · rw [if_neg howner]

/-! ### Sound states -/

/-- Everything is filed under its own number, and each mailbox that is named
exists. -/
structure IsSound (s : State) : Prop where
  actor_id : ∀ {id a}, s.actors.get? id = some a → a.id = id
  mailbox_id : ∀ {id m}, s.mailboxes.get? id = some m → m.id = id
  named : ∀ {id a t mailbox}, s.actors.get? id = some a → t ∈ a.transitions →
    t.action.mailbox? = some mailbox → ∃ m, s.mailboxes.get? mailbox = some m

theorem isSound_ofParts {declared : Nat} {actors : List Actor} {mailboxes : List Mailbox}
    (h : problems declared actors mailboxes = []) : (ofParts actors mailboxes).IsSound where
  actor_id ha := (Table.mem_of_get?_ofList_map ha).2
  mailbox_id hm := (Table.mem_of_get?_ofList_map hm).2
  named ha ht hnamed := by
    obtain ⟨hmem, -⟩ := Table.mem_of_get?_ofList_map ha
    exact Table.exists_get?_ofList_map (mem_mailboxes_of_problems_eq_nil h hmem ht hnamed)

theorem isSound_of_make {declared : Nat} {actors : List Actor} {mailboxes : List Mailbox}
    (h : make declared actors mailboxes = .ok s) : s.IsSound := by
  obtain ⟨hnone, rfl⟩ := make_eq_ok_iff.1 h
  exact isSound_ofParts hnone

theorem isSound_of_ofTables {actors : Table Actor} {mailboxes : Table Mailbox}
    (h : ofTables actors mailboxes = .ok s) : s.IsSound := by
  obtain ⟨⟨hactors, hmailboxes, hnamed⟩, rfl⟩ := ofTables_eq_ok_iff.1 h
  refine ⟨hactors _ _, hmailboxes _ _, fun {id a t mailbox} ha ht hmailbox => ?_⟩
  have hmem := (actors.mem_values_iff a).2 ⟨id, ha⟩
  exact (mailboxes.mem_keys_iff mailbox).1 (hnamed mailbox ⟨a, hmem, t, ht, hmailbox⟩)

theorem IsInitial.isSound (h : s.IsInitial) : s.IsSound :=
  ⟨h.actor_id, h.mailbox_id, h.named⟩

theorem IsSound.execute (hs : s.IsSound) {l : Label} (h : s.execute l = .ok s') :
    s'.IsSound := by
  obtain ⟨a, t, mailboxes, ha, -, -, hdeliver, rfl⟩ := execute_eq_ok_iff.1 h
  refine ⟨fun {id b} hb => ?_, fun {id m} hm => ?_, fun {id b u mailbox} hb hu hnamed => ?_⟩
  · rw [Table.get?_insert] at hb
    split at hb
    case isTrue hid =>
      cases hb
      rw [hid]
      show a.id = l.owner
      exact hs.actor_id ha
    case isFalse => exact hs.actor_id hb
  · rcases get?_of_deliver hdeliver id with ⟨side, comm, n, n', -, hn, hupdate, hn'⟩ | ⟨-, hsame⟩
    · rw [hn', Option.some.injEq] at hm
      rw [← hm, Mailbox.id_of_update hupdate, hs.mailbox_id hn]
    · exact hs.mailbox_id (hsame ▸ hm)
  · -- The actor names the mailboxes that it named before, and none of them is lost.
    have hbefore : ∃ n, s.mailboxes.get? mailbox = some n := by
      rw [Table.get?_insert] at hb
      split at hb
      case isFalse => exact hs.named hb hu hnamed
      case isTrue =>
        cases hb
        obtain ⟨index, hindex⟩ := List.mem_iff_getElem?.1 hu
        rw [Actor.getElem?_markExecuted] at hindex
        obtain ⟨v, hv, rfl⟩ := Option.map_eq_some_iff.1 hindex
        refine hs.named ha (List.mem_of_getElem? hv) ?_
        split at hnamed <;> exact hnamed
    obtain ⟨n, hn⟩ := hbefore
    rcases get?_of_deliver hdeliver mailbox with ⟨-, -, -, n', -, -, -, hn'⟩ | ⟨-, hsame⟩
    · exact ⟨n', hn'⟩
    · exact ⟨n, hsame.trans hn⟩

/-- The tables of a sound state pass the checks of a snapshot. -/
theorem IsSound.ofTables_eq (hs : s.IsSound) : ofTables s.actors s.mailboxes = .ok s := by
  refine ofTables_eq_ok_iff.2
    ⟨⟨fun _ _ => hs.actor_id, fun _ _ => hs.mailbox_id, fun mailbox hnamed => ?_⟩, rfl⟩
  obtain ⟨a, hmem, t, ht, hmailbox⟩ := hnamed
  obtain ⟨id, ha⟩ := (s.actors.mem_values_iff a).1 hmem
  exact (s.mailboxes.mem_keys_iff mailbox).2 (hs.named ha ht hmailbox)

/-- A sound state is what its actors and mailboxes make, in whatever order they are listed. -/
theorem IsSound.make_of_perm (hs : s.IsSound) {actors : List Actor} {mailboxes : List Mailbox}
    (hactors : actors.Perm s.actors.values) (hmailboxes : mailboxes.Perm s.mailboxes.values) :
    make actors.length actors mailboxes = .ok s := by
  have hvalues := hs.ofTables_eq
  rw [ofTables_of_isFiled (fun _ _ => hs.actor_id) (fun _ _ => hs.mailbox_id)] at hvalues
  have hlength : actors.length = s.actors.size := hactors.length_eq.trans (List.length_map _)
  rw [hlength]
  exact make_eq_ok_of_perm hactors.symm hmailboxes.symm hvalues

/-- A state that can be obtained: made of actors and mailboxes with any marks and
logs, drawn up by a blueprint, taken from a snapshot, or reached by a step. -/
inductive IsObtained : State → Prop
  | made {s : State} {declared : Nat} {actors : List Actor} {mailboxes : List Mailbox}
      (h : make declared actors mailboxes = .ok s) : IsObtained s
  | drawn {s : State} {blueprint : Blueprint} (h : blueprint.build = .ok s) : IsObtained s
  | loaded {s : State} {actors : Table Actor} {mailboxes : Table Mailbox}
      (h : ofTables actors mailboxes = .ok s) : IsObtained s
  | fired {s s' : State} {l : Label} (hs : IsObtained s) (h : s.execute l = .ok s') :
      IsObtained s'

theorem IsObtained.isSound (h : s.IsObtained) : s.IsSound := by
  induction h with
  | made hmake => exact isSound_of_make hmake
  | drawn hbuild => exact (isInitial_of_build hbuild).isSound
  | loaded hload => exact isSound_of_ofTables hload
  | fired _ hexecute ih => exact ih.execute hexecute

/-! ### Placed states -/

/-- All actors are placed. -/
def IsPlaced (s : State) : Prop :=
  ∀ (id : ActorId) (a : Actor), s.actors.get? id = some a → a.IsPlaced

theorem IsInitial.isPlaced (h : s.IsInitial) : s.IsPlaced := by
  intro id a ha
  obtain ⟨actions, rfl⟩ := h.actor_eq ha
  exact Actor.isPlaced_ofActions id actions

theorem IsPlaced.execute (hs : s.IsPlaced) {l : Label} (h : s.execute l = .ok s') :
    s'.IsPlaced := by
  obtain ⟨a, t, mailboxes, ha, -, -, -, rfl⟩ := execute_eq_ok_iff.1 h
  intro id b hb
  rw [Table.get?_insert] at hb
  split at hb
  case isTrue =>
    cases hb
    exact (hs l.owner a ha).markExecuted l.position
  case isFalse => exact hs id b hb

/-! ### Runs -/

/-- What a step keeps, a replay keeps. -/
theorem replay_induction {motive : State → Prop}
    (step : ∀ {s s' : State} {l : Label}, motive s → s.execute l = .ok s' → motive s')
    {w : Trace} (hs : motive s) (h : w.replay s = .ok s') : motive s' := by
  induction w generalizing s with
  | nil =>
      cases h
      exact hs
  | cons t w ih =>
      obtain ⟨next, hnext, hrest⟩ := Trace.replay_cons_eq_ok_iff.1 h
      exact ih (step hs hnext) hrest

theorem IsSound.replay (hs : s.IsSound) {w : Trace} (h : w.replay s = .ok s') : s'.IsSound :=
  replay_induction (fun hs hstep => hs.execute hstep) hs h

theorem IsPlaced.replay (hs : s.IsPlaced) {w : Trace} (h : w.replay s = .ok s') : s'.IsPlaced :=
  replay_induction (fun hs hstep => hs.execute hstep) hs h

theorem action?_of_replay {w : Trace} (h : w.replay s = .ok s') : s'.action? = s.action? :=
  replay_induction (fun hs hstep => (funext (action?_of_execute hstep)).trans hs) rfl h

end State

end Interleaving
