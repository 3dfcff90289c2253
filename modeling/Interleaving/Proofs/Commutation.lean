import Interleaving.Proofs.Frontier
import Interleaving.Proofs.Reordering

/-!
# Commuting steps

Two enabled transitions of different actors are fired in either order.  Neither
takes the turn of the other one away, and neither takes room away from it unless
both post to one log.  So independent transitions commute; and of those that can
be fired in both orders exactly the posts to one log do not commute, because the
log tells the order.
-/

namespace Interleaving

/-- Two transitions post to the same side of the same mailbox. -/
def Transition.ShareLog (t u : Transition) : Prop :=
  ∃ side mailbox comm comm', t.action = .post side mailbox comm ∧
    u.action = .post side mailbox comm'

namespace State

variable {s s' : State} {past : List Label} {l l' : Label}

/-! ### What a label leaves to labels of other owners -/

theorem length_posts_le_append (s : State) (past : List Label) (l : Label)
    (mailbox : MailboxId) (side : Side) :
    (s.posts past mailbox side).length ≤ (s.posts (past ++ [l]) mailbox side).length := by
  rw [posts_append_singleton, List.length_append]
  omega

/-- An answer is not taken back. -/
theorem Answered.append {owner : ActorId} {mailbox : MailboxId} {comm : CommId}
    (h : s.Answered past owner mailbox comm) (l : Label) :
    s.Answered (past ++ [l]) owner mailbox comm := by
  obtain ⟨side, place, post, hpost, howner, haction, hlt⟩ := h
  have hplace : place < past.length := (List.getElem?_eq_some_iff.1 hpost).1
  refine ⟨side, place, post, ?_, howner, haction, ?_⟩
  · rw [List.getElem?_append_left hplace, hpost]
  · rw [List.take_append_of_le_length (by omega)]
    have hle := length_posts_le_append s past l mailbox side.partner
    omega

theorem InTurn.append (h : s.InTurn past l) (howner : l'.owner ≠ l.owner) :
    s.InTurn (past ++ [l']) l where
  position_eq := by
    rw [firedBy_append_singleton, if_neg howner]
    exact h.position_eq
  position_lt := h.position_lt
  answered mailbox comm hwait := (h.answered mailbox comm hwait).append l'

theorem HasRoom.append (h : s.HasRoom past l)
    (hposted : ∀ mailbox side, s.posted? mailbox side l' = none ∨ s.posted? mailbox side l = none) :
    s.HasRoom (past ++ [l']) l := by
  intro side mailbox comm m capacity haction hm hcapacity
  have hpost : s.posted? mailbox side l = some (l.owner, comm) :=
    posted?_eq_some_iff.2 ⟨rfl, haction⟩
  have hnone : s.posted? mailbox side l' = none := by
    rcases hposted mailbox side with hnone | hnone
    · exact hnone
    · rw [hpost] at hnone
      cases hnone
  rw [posts_append_singleton, hnone, Option.toList_none, List.append_nil]
  exact h side mailbox comm m capacity haction hm hcapacity

theorem Admissible.append (h : s.Admissible past l) (howner : l'.owner ≠ l.owner)
    (hposted : ∀ mailbox side, s.posted? mailbox side l' = none ∨ s.posted? mailbox side l = none) :
    s.Admissible (past ++ [l']) l :=
  ⟨h.inTurn.append howner, h.hasRoom.append hposted⟩

theorem IsInitial.execute_after_eq_ok_iff (h : s.IsInitial) :
    (s.after past).execute l = .ok s' ↔ s.Admissible past l ∧ s' = s.after (past ++ [l]) := by
  constructor
  · intro hexecute
    rcases s.admissible_or_refuses past l with hl | ⟨error, hl⟩
    · rw [h.execute_after_of_admissible hl] at hexecute
      cases hexecute
      exact ⟨hl, rfl⟩
    · rw [h.execute_after_of_refuses hl] at hexecute
      cases hexecute
  · rintro ⟨hl, rfl⟩
    exact h.execute_after_of_admissible hl

/-- Labels that do not post to one log lead to one state in both orders. -/
theorem after_swap (howner : l.owner ≠ l'.owner)
    (hposted : ∀ mailbox side, s.posted? mailbox side l = none ∨ s.posted? mailbox side l' = none) :
    s.after (past ++ [l] ++ [l']) = s.after (past ++ [l'] ++ [l]) := by
  rw [List.append_assoc, List.append_assoc]
  exact (rearranges_of_neighbours howner hposted past []).after_eq

theorem posted?_eq_none_of_not_shareLog {t u : Transition}
    (ht : s.action? t.label = some t.action) (hu : s.action? u.label = some u.action)
    (h : ¬ t.ShareLog u) (mailbox : MailboxId) (side : Side) :
    s.posted? mailbox side t.label = none ∨ s.posted? mailbox side u.label = none := by
  refine posted?_eq_none_or fun comm comm' haction haction' => ?_
  rw [ht, Option.some.injEq] at haction
  rw [hu, Option.some.injEq] at haction'
  exact h ⟨side, mailbox, comm, comm', haction, haction'⟩

/-! ### What the comparison of states tells -/

theorem sameProgress_refl (s : State) : s.sameProgress s = true := by
  simp [sameProgress]

section SameProgress

variable (hs : s.IsSound) (hs' : s'.IsSound) (h : s.sameProgress s' = true)
include hs hs' h

/-- States with the same progress have the same marks. -/
theorem progress_eq_of_sameProgress {id : ActorId} {a a' : Actor}
    (ha : s.actors.get? id = some a) (ha' : s'.actors.get? id = some a') :
    a.progress = a'.progress := by
  have hvalues := (by simpa [sameProgress] using h : _ ∧ _).1
  have hmarks := Table.map_get?_eq_of_map_values_eq hs.actor_id hs'.actor_id hvalues id
  rwa [ha, ha', Option.map_some, Option.map_some, Option.some.injEq] at hmarks

/-- States with the same progress have the same logs. -/
theorem log_eq_of_sameProgress {id : MailboxId} {m m' : Mailbox}
    (hm : s.mailboxes.get? id = some m) (hm' : s'.mailboxes.get? id = some m') (side : Side) :
    m.log side = m'.log side := by
  have hvalues := (by simpa [sameProgress] using h : _ ∧ _).2
  have hlogs := Table.map_get?_eq_of_map_values_eq hs.mailbox_id hs'.mailbox_id
    (f := fun m => (m.sends, m.receives)) hvalues id
  rw [hm, hm', Option.map_some, Option.map_some, Option.some.injEq, Prod.mk.injEq] at hlogs
  cases side with
  | send => exact hlogs.1
  | receive => exact hlogs.2

end SameProgress

theorem getElem?_posts_of_posted? {mailbox : MailboxId} {side : Side} {post : Posting}
    (h : s.posted? mailbox side l = some post) (past : List Label) (l' : Label) :
    (s.posts (past ++ [l] ++ [l']) mailbox side)[(s.posts past mailbox side).length]? =
      some post := by
  rw [posts_append_singleton, posts_append_singleton, h, Option.toList_some, List.append_assoc,
    List.getElem?_append_right (Nat.le_refl _), Nat.sub_self]
  rfl

/-- The log of two posts tells which one came first. -/
theorem IsInitial.not_sameProgress_after (h : s.IsInitial) {side : Side} {mailbox : MailboxId}
    {comm comm' : CommId} (howner : l.owner ≠ l'.owner)
    (haction : s.action? l = some (.post side mailbox comm))
    (haction' : s.action? l' = some (.post side mailbox comm'))
    (hsound : (s.after (past ++ [l] ++ [l'])).IsSound)
    (hsound' : (s.after (past ++ [l'] ++ [l])).IsSound) :
    (s.after (past ++ [l] ++ [l'])).sameProgress (s.after (past ++ [l'] ++ [l])) ≠ true := by
  intro hsame
  obtain ⟨m, hm⟩ := h.exists_mailbox haction rfl
  have hlog := log_eq_of_sameProgress hsound hsound' hsame
    (h.get?_mailboxes_after_of_eq hm _) (h.get?_mailboxes_after_of_eq hm _) side
  have hfirst := getElem?_posts_of_posted? (posted?_eq_some_iff.2 ⟨rfl, haction⟩) past l'
  have hfirst' := getElem?_posts_of_posted? (posted?_eq_some_iff.2 ⟨rfl, haction'⟩) past l
  -- Behind the records of the past stands the record of the first of the two.
  have hat := congrArg (fun records => records[(s.posts past mailbox side).length]?) hlog
  simp only [Mailbox.log_holding, getElem?_recordsOf, hfirst, hfirst', Option.map_some,
    Option.some.injEq, Record.mk.injEq] at hat
  exact howner hat.1

/-! ### Reachable states -/

/-- Firing transitions leads from a built state to this one. -/
def IsReachable (s : State) : Prop :=
  ∃ (s₀ : State) (w : Trace), s₀.IsBuilt ∧ w.replay s₀ = .ok s

theorem IsReachable.isSound (h : s.IsReachable) : s.IsSound := by
  obtain ⟨s₀, w, hbuilt, hreplay⟩ := h
  exact hbuilt.isInitial.isSound.replay hreplay

theorem IsReachable.isPlaced (h : s.IsReachable) : s.IsPlaced := by
  obtain ⟨s₀, w, hbuilt, hreplay⟩ := h
  exact hbuilt.isInitial.isPlaced.replay hreplay

theorem IsReachable.execute (h : s.IsReachable) (hexecute : s.execute l = .ok s') :
    s'.IsReachable := by
  obtain ⟨s₀, w, hbuilt, hreplay⟩ := h
  refine ⟨s₀, w ++ [⟨l, .mutexTest, false⟩], hbuilt, ?_⟩
  rw [Trace.replay_append, hreplay]
  exact Trace.replay_cons_eq_ok_iff.2 ⟨s', hexecute, rfl⟩

/-- **Independent steps commute.**  Enabled transitions of different actors that can
both be fired and do not depend on each other can be fired in both orders and lead to
one state.  If both orders succeed at all, the states are equal iff the transitions do
not post to one log. -/
theorem execute_commutes {s sa sb : State} (hs : s.IsReachable) {a b : Transition}
    (ha : a ∈ s.enabled) (hb : b ∈ s.enabled) (howner : a.owner ≠ b.owner)
    (hsa : s.execute a.label = .ok sa) (hsb : s.execute b.label = .ok sb) :
    (a.dependsOn b = false →
      ∃ sab, sa.execute b.label = .ok sab ∧ sb.execute a.label = .ok sab) ∧
    ∀ sab sba, sa.execute b.label = .ok sab → sb.execute a.label = .ok sba →
      (sab.sameProgress sba = true ↔ ¬ a.ShareLog b) := by
  have hsoundAB : ∀ sab, sa.execute b.label = .ok sab → sab.IsSound :=
    fun sab h => ((hs.execute hsa).execute h).isSound
  have hsoundBA : ∀ sba, sb.execute a.label = .ok sba → sba.IsSound :=
    fun sba h => ((hs.execute hsb).execute h).isSound
  have hactionA := action?_of_mem_enabled hs.isSound hs.isPlaced ha
  have hactionB := action?_of_mem_enabled hs.isSound hs.isPlaced hb
  -- Both steps extend the history that leads to `s`.
  obtain ⟨s₀, w, hbuilt, hreplay⟩ := hs
  have hinitial := hbuilt.isInitial
  rw [action?_of_replay hreplay] at hactionA hactionB
  obtain ⟨-, rfl⟩ := hinitial.replay_eq_ok_iff.1 hreplay
  obtain ⟨hadmitA, rfl⟩ := hinitial.execute_after_eq_ok_iff.1 hsa
  obtain ⟨hadmitB, rfl⟩ := hinitial.execute_after_eq_ok_iff.1 hsb
  constructor
  · intro hindependent
    have hposted := posted?_eq_none_of_independent hactionA hactionB hindependent
    have hposted' := fun mailbox side => (hposted mailbox side).symm
    refine ⟨_, hinitial.execute_after_of_admissible (hadmitB.append howner hposted), ?_⟩
    rw [hinitial.execute_after_of_admissible (hadmitA.append howner.symm hposted'),
      after_swap howner hposted]
  · intro sab sba hab hba
    have hsab := hsoundAB sab hab
    have hsba := hsoundBA sba hba
    obtain ⟨-, rfl⟩ := hinitial.execute_after_eq_ok_iff.1 hab
    obtain ⟨-, rfl⟩ := hinitial.execute_after_eq_ok_iff.1 hba
    constructor
    · rintro hsame ⟨side, mailbox, comm, comm', hpostA, hpostB⟩
      rw [hpostA] at hactionA
      rw [hpostB] at hactionB
      exact hinitial.not_sameProgress_after howner hactionA hactionB hsab hsba hsame
    · intro hnot
      rw [after_swap howner (posted?_eq_none_of_not_shareLog hactionA hactionB hnot)]
      exact sameProgress_refl _

/-- Two senders and a receiver at one mailbox. -/
def letterbox : State :=
  ofParts
    [Actor.ofActions 0 [.post .send 1 0], Actor.ofActions 1 [.post .send 1 5],
      Actor.ofActions 2 [.post .receive 1 0, .post .receive 1 0]]
    [Mailbox.fresh 1 (some 2)]

theorem letterbox_isBuilt : letterbox.IsBuilt :=
  .inr ⟨3, [(0, [.post .send 1 0]), (1, [.post .send 1 5]),
    (2, [.post .receive 1 0, .post .receive 1 0])], [(1, some 2)], rfl⟩

theorem execute_letterbox_commutes :
    (letterbox.after [⟨0, 2⟩]).IsReachable ∧
      (∃ s, (letterbox.after [⟨0, 2⟩, ⟨0, 0⟩]).execute ⟨1, 2⟩ = .ok s ∧
        (letterbox.after [⟨0, 2⟩, ⟨1, 2⟩]).execute ⟨0, 0⟩ = .ok s) ∧
      (letterbox.after [⟨0, 2⟩, ⟨0, 0⟩, ⟨0, 1⟩]).sameProgress
        (letterbox.after [⟨0, 2⟩, ⟨0, 1⟩, ⟨0, 0⟩]) ≠ true := by
  have hreplay : Trace.replay [⟨⟨0, 2⟩, .post .receive 1 0, false⟩] letterbox =
      .ok (letterbox.after [⟨0, 2⟩]) := by decide
  have hreachable : (letterbox.after [⟨0, 2⟩]).IsReachable :=
    ⟨letterbox, _, letterbox_isBuilt, hreplay⟩
  have hsend : (⟨⟨0, 0⟩, .post .send 1 0, false⟩ : Transition) ∈
      (letterbox.after [⟨0, 2⟩]).enabled := by decide
  have hother : (⟨⟨0, 1⟩, .post .send 1 5, false⟩ : Transition) ∈
      (letterbox.after [⟨0, 2⟩]).enabled := by decide
  have hreceive : (⟨⟨1, 2⟩, .post .receive 1 0, false⟩ : Transition) ∈
      (letterbox.after [⟨0, 2⟩]).enabled := by decide
  have hsent : (letterbox.after [⟨0, 2⟩]).execute ⟨0, 0⟩ =
      .ok (letterbox.after [⟨0, 2⟩, ⟨0, 0⟩]) := by decide
  have hsent' : (letterbox.after [⟨0, 2⟩]).execute ⟨0, 1⟩ =
      .ok (letterbox.after [⟨0, 2⟩, ⟨0, 1⟩]) := by decide
  have hreceived : (letterbox.after [⟨0, 2⟩]).execute ⟨1, 2⟩ =
      .ok (letterbox.after [⟨0, 2⟩, ⟨1, 2⟩]) := by decide
  have hboth : (letterbox.after [⟨0, 2⟩, ⟨0, 0⟩]).execute ⟨0, 1⟩ =
      .ok (letterbox.after [⟨0, 2⟩, ⟨0, 0⟩, ⟨0, 1⟩]) := by decide
  have hboth' : (letterbox.after [⟨0, 2⟩, ⟨0, 1⟩]).execute ⟨0, 0⟩ =
      .ok (letterbox.after [⟨0, 2⟩, ⟨0, 1⟩, ⟨0, 0⟩]) := by decide
  refine ⟨hreachable, ?_, ?_⟩
  · exact (execute_commutes hreachable hsend hreceive (by decide) hsent hreceived).1 (by decide)
  · intro hsame
    have hiff := (execute_commutes hreachable hsend hother (by decide) hsent hsent').2 _ _
      hboth hboth'
    exact hiff.1 hsame ⟨.send, 1, 0, 5, rfl, rfl⟩

end State

end Interleaving
