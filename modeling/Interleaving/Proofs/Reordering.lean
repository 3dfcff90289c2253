import Interleaving.Proofs.Replay
import Interleaving.Proofs.Swaps

/-!
# Replays of equivalent traces

Swapping neighbours that do not depend on each other changes neither the order of
the transitions of one actor nor the order of the posts on one side of a mailbox:
the two traces are rearrangements of each other (`State.Rearranges`).  The state
after a history is a function of these orders, and so is everything that can
stop a replay except a wait that comes before its answer.
-/

namespace Interleaving

/-- Neighbours of which a partial function keeps at most one can be swapped. -/
theorem filterMap_swap {α β : Type} {f : α → Option β} {x y : α} (h : f x = none ∨ f y = none)
    (before rest : List α) :
    (before ++ x :: y :: rest).filterMap f = (before ++ y :: x :: rest).filterMap f := by
  rw [List.filterMap_append, List.filterMap_append]
  congr 1
  rcases h with hx | hy
  · cases hy : f y <;> simp [hx, hy]
  · cases hx : f x <;> simp [hx, hy]

/-- The positions that a history fires of one actor, in order. -/
def positionsOf (fired : List Label) (owner : ActorId) : List Nat :=
  fired.filterMap fun l => if l.owner = owner then some l.position else none

theorem length_positionsOf (fired : List Label) (owner : ActorId) :
    (positionsOf fired owner).length = firedBy fired owner := by
  unfold positionsOf firedBy
  induction fired with
  | nil => rfl
  | cons l fired ih => by_cases h : l.owner = owner <;> simp [h, ih]

/-- Each label is the next one of its actor iff the positions of each actor count
up from 0. -/
theorem position_eq_iff_positionsOf (fired : List Label) :
    (∀ (index : Nat) (l : Label), fired[index]? = some l →
        l.position = firedBy (fired.take index) l.owner) ↔
      ∀ (owner : ActorId) (index position : Nat),
        (positionsOf fired owner)[index]? = some position → position = index := by
  constructor
  · intro h owner index position hposition
    obtain ⟨place, l, hl, hkept, hlength⟩ := getElem?_filterMap_eq_some_iff.1 hposition
    by_cases howner : l.owner = owner
    · subst howner
      rw [if_pos rfl, Option.some.injEq] at hkept
      rw [← hkept, h place l hl, ← hlength, ← length_positionsOf]
      rfl
    · rw [if_neg howner] at hkept
      cases hkept
  · intro h index l hl
    refine h l.owner _ l.position (getElem?_filterMap_eq_some_iff.2
      ⟨index, l, hl, if_pos rfl, ?_⟩)
    exact length_positionsOf (fired.take index) l.owner

namespace State

variable {s : State}

/-- The same labels, in an order that is the same for each actor and for each
side of each mailbox. -/
structure Rearranges (s : State) (fired fired' : List Label) : Prop where
  perm : fired.Perm fired'
  positions_eq : ∀ owner, positionsOf fired owner = positionsOf fired' owner
  posts_eq : ∀ mailbox side, s.posts fired mailbox side = s.posts fired' mailbox side

/-- The state after a history depends on the orders only. -/
theorem Rearranges.after_eq {fired fired' : List Label} (h : s.Rearranges fired fired') :
    s.after fired = s.after fired' := by
  refine after_congr (fun owner => ?_) h.posts_eq
  rw [← length_positionsOf, ← length_positionsOf, h.positions_eq]

/-- A post is counted on its side from the moment on when it was made. -/
theorem length_posts_take_lt {fired : List Label} {index : Nat} {l : Label}
    (hl : fired[index]? = some l) {side : Side} {mailbox : MailboxId} {comm : CommId}
    (haction : s.action? l = some (.post side mailbox comm)) :
    (s.posts (fired.take index) mailbox side).length < (s.posts fired mailbox side).length := by
  have hpost : (s.posts fired mailbox side)[(s.posts (fired.take index) mailbox side).length]? =
      some (l.owner, comm) :=
    getElem?_filterMap_eq_some_iff.2 ⟨index, l, hl, posted?_eq_some_iff.2 ⟨rfl, haction⟩, rfl⟩
  exact (List.getElem?_eq_some_iff.1 hpost).1

/-- In a rearrangement of a history that can be fired only a wait is refused. -/
theorem Rearranges.exists_wait_of_firstRefusal {fired fired' : List Label}
    (h : s.Rearranges fired fired') (hrun : s.AdmissibleRun fired) {error : ModelError}
    (hrefusal : s.FirstRefusal fired' error) :
    ∃ l mailbox comm, error = .notEnabled l ∧ s.action? l = some (.wait mailbox comm) := by
  -- In the first order the label is admissible, at some other place.
  obtain ⟨index, l, hl, -, hrefuses⟩ := hrefusal
  obtain ⟨place, hplace⟩ := List.mem_iff_getElem?.1
    (h.perm.symm.subset (List.mem_of_getElem? hl))
  have hturn := (hrun place l hplace).inTurn
  cases hrefuses with
  | unknownActor hactor =>
      obtain ⟨a, ha, -⟩ := hturn.position_lt
      rw [hactor] at ha
      cases ha
  | notEnabled hactor hnot =>
      by_contra hwait
      -- The turn of a label that is no wait depends on the order in its actor only.
      have hpositions := (position_eq_iff_positionsOf fired).1 fun index l hl =>
        (hrun index l hl).inTurn.position_eq
      simp only [h.positions_eq] at hpositions
      refine hnot ⟨(position_eq_iff_positionsOf fired').2 hpositions index l hl,
        hturn.position_lt, fun mailbox comm haction => ?_⟩
      exact absurd ⟨l, mailbox, comm, rfl, haction⟩ hwait
  | @overCapacity side mailbox comm m capacity _ haction hm hcapacity hfull =>
      -- The log would be longer than it is after all labels, in either order.
      have hlt := length_posts_take_lt hl haction
      have hle := hrun.length_posts_le hm hcapacity side
      rw [h.posts_eq] at hle
      omega

/-- Each transition of the trace performs the action that the state has at its
label. -/
def Describes (s : State) (w : Trace) : Prop :=
  ∀ t ∈ w, s.action? t.label = some t.action

theorem Describes.agree {w w' : Trace} (h : s.Describes w) (h' : s.Describes w') :
    w.Agree w' := by
  intro t ht u hu hlabel
  have haction := h t ht
  rw [hlabel, h' u hu] at haction
  exact (Option.some.inj haction).symm

/-- Transitions that do not depend on each other do not post to one log. -/
theorem posted?_eq_none_of_independent {t u : Transition} (ht : s.action? t.label = some t.action)
    (hu : s.action? u.label = some u.action) (hindependent : t.dependsOn u = false)
    (mailbox : MailboxId) (side : Side) :
    s.posted? mailbox side t.label = none ∨ s.posted? mailbox side u.label = none := by
  refine posted?_eq_none_or fun comm comm' haction haction' => ?_
  rw [ht, Option.some.injEq] at haction
  rw [hu, Option.some.injEq] at haction'
  simp [Transition.dependsOn, Action.conflicts, haction, haction'] at hindependent

/-- Neighbours of different owners that do not post to one log can be swapped. -/
theorem rearranges_of_neighbours {l l' : Label} (howner : l.owner ≠ l'.owner)
    (hposted : ∀ mailbox side, s.posted? mailbox side l = none ∨ s.posted? mailbox side l' = none)
    (before rest : List Label) :
    s.Rearranges (before ++ l :: l' :: rest) (before ++ l' :: l :: rest) where
  perm := (List.Perm.swap l' l rest).append_left before
  positions_eq owner := by
    apply filterMap_swap
    by_cases h : l.owner = owner
    · exact .inr (if_neg fun heq => howner (h.trans heq.symm))
    · exact .inl (if_neg h)
  posts_eq mailbox side := filterMap_swap (hposted mailbox side) before rest

/-- One swap rearranges. -/
theorem rearranges_of_swap {w w' : Trace} (hdescribes : s.Describes w)
    (h : Trace.Swap w w') : s.Rearranges w.labels w'.labels := by
  cases h with
  | swap before t u rest hindependent =>
      have ht := hdescribes t (by simp)
      have hu := hdescribes u (by simp)
      have hne : t.owner ≠ u.owner := by
        intro heq
        simp [Transition.dependsOn, heq] at hindependent
      simp only [Trace.labels, List.map_append, List.map_cons]
      exact rearranges_of_neighbours hne
        (posted?_eq_none_of_independent ht hu hindependent) (before.map _) (rest.map _)

/-- Any number of swaps rearranges. -/
theorem rearranges_of_swaps {w w' : Trace} (hdescribes : s.Describes w)
    (h : Trace.Swaps w w') : s.Rearranges w.labels w'.labels := by
  induction h with
  | refl => exact ⟨List.Perm.refl _, fun _ => rfl, fun _ _ => rfl⟩
  | @tail middle w' hswaps hswap ih =>
      have hdescribes' : s.Describes middle := fun t ht =>
        hdescribes t ((Trace.Swaps.perm hswaps).symm.subset ht)
      have hlast := rearranges_of_swap hdescribes' hswap
      refine ⟨ih.perm.trans hlast.perm, fun owner => ?_, fun mailbox side => ?_⟩
      · rw [ih.positions_eq, hlast.positions_eq]
      · rw [ih.posts_eq, hlast.posts_eq]

/-- **Equivalent traces replay alike.**  If a trace with the actions of a built
state can be replayed, each trace that is equivalent to it either leads to the
same state or is stopped at a wait. -/
theorem replay_of_isEquivalent {s₀ s : State} {w w' : Trace} (hbuilt : s₀.IsBuilt)
    (hdescribes : s₀.Describes w) (hreplay : w.replay s₀ = .ok s)
    (hequivalent : w.isEquivalent w' = true) :
    w'.replay s₀ = .ok s ∨
      ∃ l mailbox comm, w'.replay s₀ = .error (.notEnabled l) ∧
        s₀.action? l = some (.wait mailbox comm) := by
  have hinitial := hbuilt.isInitial
  obtain ⟨hrun, rfl⟩ := hinitial.replay_eq_ok_iff.1 hreplay
  obtain ⟨-, c, hswaps, hlabels⟩ := (Trace.isEquivalent_iff_exists_swaps w w').1 hequivalent
  have hrearranges := rearranges_of_swaps hdescribes hswaps
  rw [hlabels] at hrearranges
  rcases s₀.admissibleRun_or_firstRefusal w'.labels with hrun' | ⟨error, hrefusal⟩
  · left
    rw [hinitial.replay_of_admissibleRun hrun', hrearranges.after_eq]
  · right
    obtain ⟨l, mailbox, comm, rfl, hwait⟩ :=
      hrearranges.exists_wait_of_firstRefusal hrun hrefusal
    exact ⟨l, mailbox, comm, hinitial.replay_of_firstRefusal hrefusal, hwait⟩

theorem replay_meeting_of_isEquivalent :
    rendezvous.Describes meeting ∧
      meeting.replay rendezvous = .ok (rendezvous.after meeting.labels) ∧
      meeting.isEquivalent impatience = true ∧
      (impatience.replay rendezvous = .ok (rendezvous.after meeting.labels) ∨
        ∃ l mailbox comm, impatience.replay rendezvous = .error (.notEnabled l) ∧
          rendezvous.action? l = some (.wait mailbox comm)) := by
  have hdescribes : rendezvous.Describes meeting := by
    unfold Describes
    decide
  have hreplay : meeting.replay rendezvous = .ok (rendezvous.after meeting.labels) := by decide
  have hequivalent : meeting.isEquivalent impatience = true := by decide
  exact ⟨hdescribes, hreplay, hequivalent,
    replay_of_isEquivalent rendezvous_isBuilt hdescribes hreplay hequivalent⟩

end State

end Interleaving
