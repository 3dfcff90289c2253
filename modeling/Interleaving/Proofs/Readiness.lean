import Interleaving.Proofs.Commutation
import Interleaving.Proofs.Matching

/-!
# What a step enables

A step never holds back what was ready, so it disables no transition of another actor.  What
it makes ready besides is a single wait: the one of the record that its post is matched with
(`State.Matches`).  So a step enables at most the successor of the fired transition and that
wait.
-/

namespace Interleaving

namespace State

variable {s s' : State} {a t : Transition}

theorem isReady_of_not_wait (h : ∀ mailbox comm, t.action ≠ .wait mailbox comm) :
    s.isReady t = true := by
  unfold isReady
  split
  case h_1 mailbox comm hwait => exact absurd hwait (h mailbox comm)
  case h_2 => rfl

theorem isReady_iff_of_wait {mailbox : MailboxId} {comm : CommId}
    (h : t.action = .wait mailbox comm) : s.isReady t = true ↔
      ∃ m, s.mailboxes.get? mailbox = some m ∧ m.isMatched t.owner comm = true := by
  simp only [isReady, h, Mailbox.confirms, Action.comm?, Option.any_eq_true, Option.some.injEq,
    exists_eq_left']

/-- From `s` to `s'` the post of `a` to this mailbox is matched with `partner`, which was the
oldest pending record of the other log. -/
def Matches (s : State) (a : Transition) (s' : State) (mailbox : MailboxId)
    (partner : Record) : Prop :=
  ∃ side comm m m', a.action = .post side mailbox comm ∧ s.mailboxes.get? mailbox = some m ∧
    s'.mailboxes.get? mailbox = some m' ∧
    Mailbox.Settles (m.log side.partner) partner (m'.log side.partner)

/-- A post is matched with one record. -/
theorem Matches.unique {mailbox mailbox' : MailboxId} {partner partner' : Record}
    (h : s.Matches a s' mailbox partner) (h' : s.Matches a s' mailbox' partner') :
    mailbox = mailbox' ∧ partner = partner' := by
  obtain ⟨side, comm, m, _, haction, hm, -, hsettles⟩ := h
  obtain ⟨side', comm', n, _, haction', hn, -, hsettles'⟩ := h'
  rw [haction, Action.post.injEq] at haction'
  obtain ⟨rfl, rfl, -⟩ := haction'
  rw [hm, Option.some.injEq] at hn
  subst hn
  exact ⟨rfl, hsettles.unique hsettles'⟩

/-- A mailbox after a step: it has one more post, or it is the mailbox from before. -/
theorem Fires.get?_mailbox (h : s.Fires a s') (id : MailboxId) :
    (∃ side comm m, a.action = .post side id comm ∧ s.mailboxes.get? id = some m ∧
        s'.mailboxes.get? id = some (m.append side a.owner comm)) ∨
      s'.mailboxes.get? id = s.mailboxes.get? id := by
  by_cases hpost : ∃ side comm, a.action = .post side id comm
  · obtain ⟨side, comm, haction⟩ := hpost
    obtain ⟨m, m', hm, hupdate, hm'⟩ := h.mailbox side id comm haction
    obtain ⟨side', comm', haction', -, rfl⟩ := Mailbox.update_eq_ok_iff.1 hupdate
    rw [haction, Action.post.injEq] at haction'
    obtain ⟨rfl, -, rfl⟩ := haction'
    exact .inl ⟨side, comm, m, haction, hm, hm'⟩
  · exact .inr (h.other_mailboxes id fun side comm haction => hpost ⟨side, comm, haction⟩)

/-- What is ready stays ready. -/
theorem Fires.isReady (h : s.Fires a s') (hready : s.isReady t = true) : s'.isReady t = true := by
  by_cases hwait : ∃ mailbox comm, t.action = .wait mailbox comm
  · obtain ⟨mailbox, comm, haction⟩ := hwait
    obtain ⟨m, hm, hmatched⟩ := (isReady_iff_of_wait haction).1 hready
    rw [isReady_iff_of_wait haction]
    rcases h.get?_mailbox mailbox with ⟨side, comm', n, -, hn, hn'⟩ | hsame
    · rw [hm, Option.some.injEq] at hn
      subst hn
      exact ⟨_, hn', (Mailbox.isMatched_append_iff ..).2 (.inl hmatched)⟩
    · exact ⟨m, hsame.trans hm, hmatched⟩
  · exact isReady_of_not_wait fun mailbox comm haction => hwait ⟨mailbox, comm, haction⟩

/-- What becomes ready in another actor is the wait of the record that the step has matched. -/
theorem Fires.exists_matches (h : s.Fires a s') (howner : t.owner ≠ a.owner)
    (hready : s'.isReady t = true) (hheld : ¬ s.isReady t = true) :
    ∃ mailbox partner, s.Matches a s' mailbox partner ∧ t.owner = partner.owner ∧
      t.action = .wait mailbox partner.comm := by
  have hwait : ∃ mailbox comm, t.action = .wait mailbox comm := by
    by_contra hnot
    exact hheld (isReady_of_not_wait fun mailbox comm haction => hnot ⟨mailbox, comm, haction⟩)
  obtain ⟨mailbox, comm, haction⟩ := hwait
  obtain ⟨m', hm', hmatched⟩ := (isReady_iff_of_wait haction).1 hready
  have hbefore : ∀ m, s.mailboxes.get? mailbox = some m → ¬ m.isMatched t.owner comm = true :=
    fun m hm hmatched => hheld ((isReady_iff_of_wait haction).2 ⟨m, hm, hmatched⟩)
  rcases h.get?_mailbox mailbox with ⟨side, comm', m, hpost, hm, happend⟩ | hsame
  · have hm'_eq := happend
    rw [hm', Option.some.injEq] at hm'_eq
    subst hm'_eq
    rcases (Mailbox.isMatched_append_iff ..).1 hmatched with
      hmatched | ⟨partner, hsettles, ⟨hpartner, rfl⟩ | ⟨hself, -⟩⟩
    · exact absurd hmatched (hbefore m hm)
    · exact ⟨mailbox, partner, ⟨side, comm', m, _, hpost, hm, happend, hsettles⟩, hpartner,
        haction⟩
    · exact absurd hself howner
  · exact absurd hmatched (hbefore m' (hsame ▸ hm'))

/-! ### The listing before and after a step -/

/-- What is enabled is what some actor goes on with and nothing holds back. -/
theorem mem_enabled_iff_next (hsound : s.IsSound) (hplaced : s.IsPlaced) :
    t ∈ s.enabled ↔
      (∃ x, s.actors.get? t.owner = some x ∧ x.next? = some t) ∧ s.isReady t = true := by
  rw [mem_enabled_iff hsound hplaced]
  simp only [offer?_eq_some_iff, ← and_assoc, exists_and_right]

/-- After a history an actor goes on with the transition that the history has counted to. -/
theorem IsInitial.position_of_mem_enabled_after (h : s.IsInitial) {past : List Label}
    (hsound : (s.after past).IsSound) (hplaced : (s.after past).IsPlaced)
    (ht : t ∈ (s.after past).enabled) : t.position = firedBy past t.owner := by
  obtain ⟨x, hx, hoffer⟩ := (mem_enabled_iff hsound hplaced).1 ht
  rw [get?_actors_after] at hx
  obtain ⟨b, hb, rfl⟩ := Option.map_eq_some_iff.1 hx
  rw [h.actor_id hb] at hoffer
  obtain ⟨-, hturn, -, -⟩ := (h.offer?_after_eq_some_iff past hb).1 hoffer
  exact hturn.position_eq

/-- In the actor that was fired the next position is up. -/
theorem IsReachable.position_of_execute (hs : s.IsReachable) {l : Label}
    (h : s.execute l = .ok s') (ht : t ∈ s'.enabled) (howner : t.owner = l.owner) :
    t.position = l.position + 1 := by
  have hs' := hs.execute h
  obtain ⟨s₀, w, hbuilt, hreplay⟩ := hs
  have hinitial := hbuilt.isInitial
  obtain ⟨-, rfl⟩ := hinitial.replay_eq_ok_iff.1 hreplay
  obtain ⟨hl, rfl⟩ := hinitial.execute_after_eq_ok_iff.1 h
  rw [hinitial.position_of_mem_enabled_after hs'.isSound hs'.isPlaced ht,
    firedBy_append_singleton, if_pos howner.symm, howner, hl.inTurn.position_eq]

/-- The transition is enabled in the second state but not in the first one. -/
def Enables (s s' : State) (t : Transition) : Prop := t ∈ s'.enabled ∧ t ∉ s.enabled

section Step

variable (hs : s.IsReachable) {l : Label} (h : s.execute l = .ok s') (hfires : s.Fires a s')
include hs h hfires

/-- A step disables no transition of another actor. -/
theorem mem_enabled_of_fires (ht : t ∈ s.enabled) (howner : t.owner ≠ a.owner) :
    t ∈ s'.enabled := by
  have hs' := hs.execute h
  obtain ⟨⟨x, hx, hnext⟩, hready⟩ := (mem_enabled_iff_next hs.isSound hs.isPlaced).1 ht
  refine (mem_enabled_iff_next hs'.isSound hs'.isPlaced).2 ⟨⟨x, ?_, hnext⟩, hfires.isReady hready⟩
  rw [hfires.other_actors t.owner howner, hx]

/-- What a step enables in another actor is a wait. -/
theorem exists_matches_of_enables (ht : s.Enables s' t) (howner : t.owner ≠ a.owner) :
    ∃ mailbox partner, s.Matches a s' mailbox partner ∧ t.owner = partner.owner ∧
      t.action = .wait mailbox partner.comm := by
  have hs' := hs.execute h
  obtain ⟨hafter, hbefore⟩ := ht
  obtain ⟨⟨x, hx, hnext⟩, hready⟩ := (mem_enabled_iff_next hs'.isSound hs'.isPlaced).1 hafter
  rw [hfires.other_actors t.owner howner] at hx
  refine hfires.exists_matches howner hready fun hheld => hbefore ?_
  exact (mem_enabled_iff_next hs.isSound hs.isPlaced).2 ⟨⟨x, hx, hnext⟩, hheld⟩

end Step

/-- **What a step changes in the listing.**  A step in a reachable state fires an enabled
transition and disables none of another actor.  What it enables is the successor of the fired
one, or, in another actor, the wait of the record that its post is matched with; so it enables
the transition of at most one other actor, and of none if it posts nothing. -/
theorem enabled_after_step (hs : s.IsReachable) {l : Label} (h : s.execute l = .ok s') :
    ∃ a ∈ s.enabled, a.label = l ∧
      (∀ b ∈ s.enabled, b.owner ≠ a.owner → b ∈ s'.enabled) ∧
      (∀ c, s.Enables s' c → (c.owner = a.owner ∧ c.position = a.position + 1) ∨
        (c.owner ≠ a.owner ∧ ∃ mailbox partner, s.Matches a s' mailbox partner ∧
          c.owner = partner.owner ∧ c.action = .wait mailbox partner.comm)) ∧
      (∀ c c', s.Enables s' c → s.Enables s' c' → c.owner ≠ a.owner → c'.owner ≠ a.owner →
        c = c') ∧
      ((∀ side mailbox comm, a.action ≠ .post side mailbox comm) →
        ∀ c, s.Enables s' c → c.owner = a.owner) := by
  have hs' := hs.execute h
  obtain ⟨a, ha, rfl, hfires⟩ := exists_fires_of_execute hs.isSound hs.isPlaced h
  refine ⟨a, ha, rfl, ?_, ?_, ?_, ?_⟩
  · exact fun b hb howner => mem_enabled_of_fires hs h hfires hb howner
  · intro c hc
    by_cases howner : c.owner = a.owner
    · exact .inl ⟨howner, hs.position_of_execute h hc.1 howner⟩
    · exact .inr ⟨howner, exists_matches_of_enables hs h hfires hc howner⟩
  · intro c c' hc hc' howner howner'
    obtain ⟨mailbox, partner, hmatches, hc_owner, -⟩ :=
      exists_matches_of_enables hs h hfires hc howner
    obtain ⟨mailbox', partner', hmatches', hc'_owner, -⟩ :=
      exists_matches_of_enables hs h hfires hc' howner'
    obtain ⟨-, rfl⟩ := hmatches.unique hmatches'
    exact eq_of_mem_enabled hs'.isSound hs'.isPlaced hc.1 hc'.1 (hc_owner.trans hc'_owner.symm)
  · intro hnot c hc
    by_contra howner
    obtain ⟨mailbox, -, ⟨side, comm, -, -, haction, -⟩, -⟩ :=
      exists_matches_of_enables hs h hfires hc howner
    exact hnot side mailbox comm haction

/-- Two receivers that wait for their messages, and a sender of one message. -/
def waitingRoom : State :=
  ofParts
    [Actor.ofActions 0 [.post .send 1 0, .lock 0],
      Actor.ofActions 1 [.post .receive 1 0, .wait 1 0],
      Actor.ofActions 2 [.post .receive 1 0, .wait 1 0]]
    [Mailbox.fresh 1 none]

theorem waitingRoom_isBuilt : waitingRoom.IsBuilt :=
  .inr ⟨3, [(0, [.post .send 1 0, .lock 0]), (1, [.post .receive 1 0, .wait 1 0]),
    (2, [.post .receive 1 0, .wait 1 0])], [(1, none)], rfl⟩

/-- Both receivers wait, and the message lets the one go on that came first. -/
theorem enabled_after_step_in_waitingRoom :
    (waitingRoom.after [⟨0, 2⟩, ⟨0, 1⟩]).IsReachable ∧
      (waitingRoom.after [⟨0, 2⟩, ⟨0, 1⟩]).execute ⟨0, 0⟩ =
        .ok (waitingRoom.after [⟨0, 2⟩, ⟨0, 1⟩, ⟨0, 0⟩]) ∧
      ∀ c, (waitingRoom.after [⟨0, 2⟩, ⟨0, 1⟩]).Enables
          (waitingRoom.after [⟨0, 2⟩, ⟨0, 1⟩, ⟨0, 0⟩]) c →
        (c.owner = 0 ∧ c.position = 1) ∨ c = ⟨⟨1, 2⟩, .wait 1 0, false⟩ := by
  have hreplay : Trace.replay [⟨⟨0, 2⟩, .post .receive 1 0, false⟩,
      ⟨⟨0, 1⟩, .post .receive 1 0, false⟩] waitingRoom =
        .ok (waitingRoom.after [⟨0, 2⟩, ⟨0, 1⟩]) := by decide
  have hreachable : (waitingRoom.after [⟨0, 2⟩, ⟨0, 1⟩]).IsReachable :=
    ⟨waitingRoom, _, waitingRoom_isBuilt, hreplay⟩
  have hexecute : (waitingRoom.after [⟨0, 2⟩, ⟨0, 1⟩]).execute ⟨0, 0⟩ =
      .ok (waitingRoom.after [⟨0, 2⟩, ⟨0, 1⟩, ⟨0, 0⟩]) := by decide
  have hwait : (waitingRoom.after [⟨0, 2⟩, ⟨0, 1⟩]).Enables
      (waitingRoom.after [⟨0, 2⟩, ⟨0, 1⟩, ⟨0, 0⟩]) ⟨⟨1, 2⟩, .wait 1 0, false⟩ := by
    unfold Enables
    decide
  obtain ⟨a, -, hlabel, -, hnew, hone, -⟩ := enabled_after_step hreachable hexecute
  have howner : a.owner = 0 := congrArg Label.owner hlabel
  have hposition : a.position = 0 := congrArg Label.position hlabel
  rw [howner, hposition] at hnew
  rw [howner] at hone
  refine ⟨hreachable, hexecute, fun c hc => ?_⟩
  rcases hnew c hc with hsuccessor | ⟨hother, -⟩
  · exact .inl hsuccessor
  · exact .inr (hone c _ hc hwait hother (by decide))

end State

end Interleaving
