import Interleaving.Proofs.Step

/-!
# Parts that do not meet

A division says to which part each actor and each mailbox belongs.  If actors name mailboxes
of their own part only, a step looks at one part and changes one part: it does in the part
(`State.part`) what it does in the whole (`State.execute_part`), and leaves the other parts
as they are.  So a trace can be replayed iff each part can replay what its actors fire, and
the parts of the final state are the final states of the parts.
-/

namespace Interleaving

variable {κ : Type} [DecidableEq κ]

/-- To which part each actor and each mailbox belongs. -/
structure Division (κ : Type) where
  ofActor : ActorId → κ
  ofMailbox : MailboxId → κ

namespace Division

/-- The transitions of a trace that the actors of one part own. -/
def owned (d : Division κ) (k : κ) (w : Trace) : Trace := w.filter fun t => d.ofActor t.owner = k

theorem owned_cons_of_eq {d : Division κ} {k : κ} {t : Transition} (h : d.ofActor t.owner = k)
    (w : Trace) : d.owned k (t :: w) = t :: d.owned k w := by
  simp [owned, h]

theorem owned_cons_of_ne {d : Division κ} {k : κ} {t : Transition} (h : d.ofActor t.owner ≠ k)
    (w : Trace) : d.owned k (t :: w) = d.owned k w := by
  simp [owned, h]

/-- Each actor of the state names mailboxes of its own part only. -/
def Separates (d : Division κ) (s : State) : Prop :=
  ∀ (l : Label) (action : Action) (mailbox : MailboxId), s.action? l = some action →
    action.mailbox? = some mailbox → d.ofMailbox mailbox = d.ofActor l.owner

omit [DecidableEq κ] in
theorem Separates.of_mem {d : Division κ} {s : State} (h : d.Separates s) {id : ActorId}
    {a : Actor} {t : Transition} {mailbox : MailboxId} (ha : s.actors.get? id = some a)
    (ht : t ∈ a.transitions) (hnamed : t.action.mailbox? = some mailbox) :
    d.ofMailbox mailbox = d.ofActor id := by
  obtain ⟨l, rfl, haction⟩ := State.exists_label_of_mem ha ht
  exact h l t.action mailbox haction hnamed

omit [DecidableEq κ] in
theorem Separates.execute {d : Division κ} {s s' : State} (h : d.Separates s) {l : Label}
    (hexecute : s.execute l = .ok s') : d.Separates s' := by
  intro l' action mailbox haction hnamed
  rw [State.action?_of_execute hexecute] at haction
  exact h l' action mailbox haction hnamed

instance (d : Division κ) (s : State) : Decidable (d.Separates s) :=
  decidable_of_iff (∀ entry ∈ s.actors.entries, ∀ t ∈ entry.2.transitions,
      ∀ mailbox ∈ t.action.mailbox?, d.ofMailbox mailbox = d.ofActor entry.1) <| by
    constructor
    · intro h l action mailbox haction hnamed
      obtain ⟨a, t, ha, ht, rfl⟩ := State.action?_eq_some_iff.1 haction
      exact h (l.owner, a) ((Table.mem_entries_iff ..).2 ha) t (List.mem_of_getElem? ht) mailbox
        hnamed
    · rintro h ⟨id, a⟩ ha t ht mailbox hnamed
      exact h.of_mem ((Table.mem_entries_iff ..).1 ha) ht hnamed

end Division

namespace State

variable {s s' : State} {d : Division κ} {k : κ}

/-- The actors and mailboxes of one part. -/
def part (s : State) (d : Division κ) (k : κ) : State where
  actors := s.actors.filter fun id => d.ofActor id = k
  mailboxes := s.mailboxes.filter fun id => d.ofMailbox id = k

theorem get?_actors_part (s : State) (d : Division κ) (k : κ) (id : ActorId) :
    (s.part d k).actors.get? id = if d.ofActor id = k then s.actors.get? id else none := by
  simp [part, Table.get?_filter]

theorem get?_mailboxes_part (s : State) (d : Division κ) (k : κ) (id : MailboxId) :
    (s.part d k).mailboxes.get? id = if d.ofMailbox id = k then s.mailboxes.get? id else none := by
  simp [part, Table.get?_filter]

/-- A state is sound in each part. -/
theorem IsSound.part (hs : s.IsSound) (hseparates : d.Separates s) (k : κ) :
    (s.part d k).IsSound := by
  refine ⟨fun {id a} ha => ?_, fun {id m} hm => ?_, fun {id a t mailbox} ha ht hnamed => ?_⟩
  · rw [get?_actors_part] at ha
    split at ha
    case isTrue => exact hs.actor_id ha
    case isFalse => cases ha
  · rw [get?_mailboxes_part] at hm
    split at hm
    case isTrue => exact hs.mailbox_id hm
    case isFalse => cases hm
  · rw [get?_actors_part] at ha
    split at ha
    case isFalse => cases ha
    case isTrue hid =>
      obtain ⟨m, hm⟩ := hs.named ha ht hnamed
      refine ⟨m, ?_⟩
      rw [get?_mailboxes_part, hseparates.of_mem ha ht hnamed, if_pos hid, hm]

/-! ### One step -/

section Step

variable {id : ActorId} {a : Actor} (hseparates : d.Separates s) (ha : s.actors.get? id = some a)
  (hid : d.ofActor id = k)
include hseparates ha hid

theorem isReady_part {t : Transition} (ht : t ∈ a.transitions) :
    (s.part d k).isReady t = s.isReady t := by
  unfold isReady
  split
  case h_1 mailbox comm hwait =>
    have hmailbox : d.ofMailbox mailbox = k :=
      (hseparates.of_mem ha ht (by rw [hwait]; rfl)).trans hid
    rw [get?_mailboxes_part, if_pos hmailbox]
  case h_2 => rfl

theorem offer?_part : (s.part d k).offer? a = s.offer? a := by
  unfold offer?
  cases hnext : a.next? with
  | none => rfl
  | some t =>
      have hready := isReady_part hseparates ha hid (List.mem_of_find?_eq_some hnext)
      simp only [Option.filter, hready]

theorem deliver_part {t : Transition} (ht : t ∈ a.transitions) : (s.part d k).deliver t =
    (s.deliver t).map fun mailboxes => mailboxes.filter fun id => d.ofMailbox id = k := by
  unfold deliver
  split
  case h_1 side mailbox comm hpost =>
    have hmailbox : d.ofMailbox mailbox = k :=
      (hseparates.of_mem ha ht (by rw [hpost]; rfl)).trans hid
    rw [get?_mailboxes_part, if_pos hmailbox]
    cases s.mailboxes.get? mailbox with
    | none => rfl
    | some m =>
        show (m.update t).map _ = ((m.update t).map _).map _
        cases m.update t with
        | error error => rfl
        | ok m' => simp [Except.map, Table.filter_insert, hmailbox, part]
  case h_2 => rfl

end Step

/-- **One step.**  A label does in the part of its owner what it does in the whole state. -/
theorem execute_part (hseparates : d.Separates s) {l : Label} (hl : d.ofActor l.owner = k) :
    (s.part d k).execute l = (s.execute l).map fun s' => s'.part d k := by
  unfold execute
  rw [get?_actors_part, if_pos hl]
  cases ha : s.actors.get? l.owner with
  | none => rfl
  | some a =>
      simp only [offer?_part hseparates ha hl]
      cases hoffer : s.offer? a with
      | none => rfl
      | some t =>
          have ht : t ∈ a.transitions :=
            List.mem_of_find?_eq_some (offer?_eq_some_iff.1 hoffer).1
          by_cases hposition : t.position = l.position
          · simp only [hposition, if_true, deliver_part hseparates ha hl ht]
            cases s.deliver t with
            | error error => rfl
            | ok mailboxes => simp [Except.map, part, Table.filter_insert, hl]
          · simp only [hposition, if_false]
            rfl

/-- **One step.**  A label leaves the other parts as they are. -/
theorem part_of_execute (hseparates : d.Separates s) {l : Label} (hl : d.ofActor l.owner ≠ k)
    (h : s.execute l = .ok s') : s'.part d k = s.part d k := by
  obtain ⟨a, t, mailboxes, ha, hoffer, -, hdeliver, rfl⟩ := execute_eq_ok_iff.1 h
  have ht : t ∈ a.transitions := List.mem_of_find?_eq_some (offer?_eq_some_iff.1 hoffer).1
  have hmailboxes : (mailboxes.filter fun id => d.ofMailbox id = k) =
      s.mailboxes.filter fun id => d.ofMailbox id = k := by
    rcases deliver_eq_ok_cases hdeliver with
      ⟨side, mailbox, comm, m, m', hpost, -, -, rfl⟩ | ⟨-, rfl⟩
    · have hmailbox : d.ofMailbox mailbox = d.ofActor l.owner :=
        hseparates.of_mem ha ht (by rw [hpost]; rfl)
      simp [Table.filter_insert, hmailbox, hl]
    · rfl
  unfold part
  rw [hmailboxes]
  simp [Table.filter_insert, hl]

/-! ### Runs -/

/-- Each part replays what its actors fire in the whole run. -/
theorem replay_owned (hseparates : d.Separates s) {w : Trace} (h : w.replay s = .ok s') (k : κ) :
    (d.owned k w).replay (s.part d k) = .ok (s'.part d k) := by
  induction w generalizing s with
  | nil =>
      cases h
      rfl
  | cons t rest ih =>
      obtain ⟨next, hnext, hrest⟩ := Trace.replay_cons_eq_ok_iff.1 h
      have hih := ih (hseparates.execute hnext) hrest
      by_cases howner : d.ofActor t.owner = k
      · rw [Division.owned_cons_of_eq howner, Trace.replay_cons_eq_ok_iff]
        refine ⟨next.part d k, ?_, hih⟩
        rw [execute_part hseparates howner, hnext]
        rfl
      · rw [Division.owned_cons_of_ne howner, ← part_of_execute hseparates howner hnext]
        exact hih

/-- If each part can replay what its actors fire, the whole state can replay the trace. -/
theorem exists_replay_of_owned (hseparates : d.Separates s) {w : Trace}
    (h : ∀ k, ∃ final, (d.owned k w).replay (s.part d k) = .ok final) :
    ∃ s', w.replay s = .ok s' := by
  induction w generalizing s with
  | nil => exact ⟨s, rfl⟩
  | cons t rest ih =>
      -- The first step succeeds in its own part, and so in the whole state.
      obtain ⟨final, hfinal⟩ := h (d.ofActor t.owner)
      rw [Division.owned_cons_of_eq rfl, Trace.replay_cons_eq_ok_iff] at hfinal
      obtain ⟨_, hstep, hrest⟩ := hfinal
      rw [execute_part hseparates rfl, map_eq_ok_iff] at hstep
      obtain ⟨next, hnext, rfl⟩ := hstep
      have hnext_parts : ∀ k, ∃ final, (d.owned k rest).replay (next.part d k) = .ok final := by
        intro k
        by_cases howner : d.ofActor t.owner = k
        · subst howner
          exact ⟨final, hrest⟩
        · obtain ⟨final', hfinal'⟩ := h k
          rw [Division.owned_cons_of_ne howner] at hfinal'
          rw [part_of_execute hseparates howner hnext]
          exact ⟨final', hfinal'⟩
      obtain ⟨s', hs'⟩ := ih (hseparates.execute hnext) hnext_parts
      exact ⟨s', Trace.replay_cons_eq_ok_iff.2 ⟨next, hnext, hs'⟩⟩

/-- **Parts do not interfere.**  Let a division separate the actors of a built state.  The
actors and mailboxes of each part make a state of their own.  A trace can be replayed in the
whole state iff each part can replay what its actors fire, and the final state then has
exactly the actors and mailboxes of the final states of the parts. -/
theorem replay_divides {s₀ : State} (hbuilt : s₀.IsBuilt) (hseparates : d.Separates s₀)
    {actors : κ → List Actor} {mailboxes : κ → List Mailbox}
    (hactors : ∀ k, (actors k).Perm (s₀.actors.values.filter fun a => d.ofActor a.id = k))
    (hmailboxes : ∀ k,
      (mailboxes k).Perm (s₀.mailboxes.values.filter fun m => d.ofMailbox m.id = k)) :
    ∃ alone : κ → State,
      (∀ k, make (actors k).length (actors k) (mailboxes k) = .ok (alone k)) ∧
      ∀ w : Trace,
        ((∃ s, w.replay s₀ = .ok s) ↔ ∀ k, ∃ s, (d.owned k w).replay (alone k) = .ok s) ∧
        ∀ (s : State) (final : κ → State), w.replay s₀ = .ok s →
          (∀ k, (d.owned k w).replay (alone k) = .ok (final k)) →
          (∀ id a, s.actors.get? id = some a ↔ ∃ k, (final k).actors.get? id = some a) ∧
          ∀ id m, s.mailboxes.get? id = some m ↔ ∃ k, (final k).mailboxes.get? id = some m := by
  have hsound := hbuilt.isInitial.isSound
  refine ⟨s₀.part d, fun k => ?_, fun w => ⟨?_, fun s final hreplay hfinal => ?_⟩⟩
  · have hvalues := hactors k
    have hvalues' := hmailboxes k
    rw [← Table.values_filter hsound.actor_id fun id => d.ofActor id = k] at hvalues
    rw [← Table.values_filter hsound.mailbox_id fun id => d.ofMailbox id = k] at hvalues'
    exact (hsound.part hseparates k).make_of_perm hvalues hvalues'
  · constructor
    · rintro ⟨s, hreplay⟩ k
      exact ⟨s.part d k, replay_owned hseparates hreplay k⟩
    · exact exists_replay_of_owned hseparates
  · have hparts : ∀ k, final k = s.part d k := by
      intro k
      have hk := hfinal k
      rw [replay_owned hseparates hreplay k, Except.ok.injEq] at hk
      exact hk.symm
    constructor
    · intro id a
      simp [hparts, get?_actors_part]
    · intro id m
      simp [hparts, get?_mailboxes_part]

/-- Two pairs of a sender and a receiver, each with a mailbox of its own. -/
def twoRooms : State :=
  ofParts
    [Actor.ofActions 0 [.post .send 1 0], Actor.ofActions 1 [.post .receive 1 0, .wait 1 0],
      Actor.ofActions 2 [.post .send 2 0], Actor.ofActions 3 [.post .receive 2 0, .wait 2 0]]
    [Mailbox.fresh 1 none, Mailbox.fresh 2 (some 1)]

theorem twoRooms_isBuilt : twoRooms.IsBuilt :=
  .inr ⟨4, [(0, [.post .send 1 0]), (1, [.post .receive 1 0, .wait 1 0]), (2, [.post .send 2 0]),
    (3, [.post .receive 2 0, .wait 2 0])], [(1, none), (2, some 1)], rfl⟩

/-- The pair at the first mailbox, and the pair at the second one. -/
def rooms : Division Bool where
  ofActor id := id < 2
  ofMailbox id := id < 2

/-- The pairs take turns. -/
def turns : Trace :=
  [⟨⟨0, 1⟩, .post .receive 1 0, false⟩, ⟨⟨0, 2⟩, .post .send 2 0, false⟩,
    ⟨⟨0, 0⟩, .post .send 1 0, false⟩, ⟨⟨0, 3⟩, .post .receive 2 0, false⟩,
    ⟨⟨1, 1⟩, .wait 1 0, false⟩, ⟨⟨1, 3⟩, .wait 2 0, false⟩]

/-- The actors of the two rooms, the ones of the first room in the other order. -/
def roommates : Bool → List Actor
  | true => [Actor.ofActions 1 [.post .receive 1 0, .wait 1 0], Actor.ofActions 0 [.post .send 1 0]]
  | false => [Actor.ofActions 2 [.post .send 2 0], Actor.ofActions 3 [.post .receive 2 0, .wait 2 0]]

theorem replay_divides_in_twoRooms :
    twoRooms.IsBuilt ∧ rooms.Separates twoRooms ∧
      turns.replay twoRooms = .ok (twoRooms.after turns.labels) ∧
      ∃ alone : Bool → State,
        make 2 (roommates true) [Mailbox.fresh 1 none] = .ok (alone true) ∧
        make 2 (roommates false) [Mailbox.fresh 2 (some 1)] = .ok (alone false) ∧
        ∀ k, ∃ s, (rooms.owned k turns).replay (alone k) = .ok s := by
  have hseparates : rooms.Separates twoRooms := by decide
  have hreplay : turns.replay twoRooms = .ok (twoRooms.after turns.labels) := by decide
  have hactors : ∀ k,
      (roommates k).Perm (twoRooms.actors.values.filter fun a => rooms.ofActor a.id = k) := by
    decide
  have hmailboxes : ∀ k, (cond k [Mailbox.fresh 1 none] [Mailbox.fresh 2 (some 1)]).Perm
      (twoRooms.mailboxes.values.filter fun m => rooms.ofMailbox m.id = k) := by
    decide
  obtain ⟨alone, halone, hruns⟩ :=
    replay_divides twoRooms_isBuilt hseparates hactors hmailboxes
  exact ⟨twoRooms_isBuilt, hseparates, hreplay, alone, halone true, halone false,
    (hruns turns).1.1 ⟨_, hreplay⟩⟩

end State

end Interleaving
