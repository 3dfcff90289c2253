import Interleaving.Proofs.Commutation

/-!
# What the comparison of states sees

States are compared by the marks of their actors and the logs of their mailboxes
(`State.sameProgress`).  Of two final states of runs from one built state this is enough:
whatever is not compared is as it was in the beginning.  A final state tells what was fired
(`AdmissibleRun.mem_iff_isExecuted`) and in which order the actors came to each log
(`IsInitial.posters_eq`), and nothing else about the run; so runs that agree on these end in
one state.
-/

namespace Interleaving

/-- Two lists of pairs are the same if the first components come in the same order and each
first component meets its second components in the same order. -/
theorem eq_of_map_fst_eq {α β : Type} [DecidableEq α] {xs ys : List (α × β)}
    (hfst : xs.map Prod.fst = ys.map Prod.fst)
    (hfilter : ∀ k, xs.filter (fun x => x.1 = k) = ys.filter fun x => x.1 = k) : xs = ys := by
  induction xs generalizing ys with
  | nil => exact (List.map_eq_nil_iff.1 hfst.symm).symm
  | cons x xs ih =>
      cases ys with
      | nil => cases hfst
      | cons y ys =>
          rw [List.map_cons, List.map_cons, List.cons.injEq] at hfst
          obtain ⟨hhead, htail⟩ := hfst
          -- Both heads stand first among the pairs with their first component.
          have hsame : x = y := by
            have hfirst := hfilter x.1
            rw [List.filter_cons_of_pos (by simp), List.filter_cons_of_pos (by simp [hhead]),
              List.cons.injEq] at hfirst
            exact hfirst.1
          subst hsame
          rw [ih htail fun k => ?_]
          have hrest := hfilter k
          by_cases hk : x.1 = k
          · rw [List.filter_cons_of_pos (by simpa using hk),
              List.filter_cons_of_pos (by simpa using hk), List.cons.injEq] at hrest
            exact hrest.2
          · rwa [List.filter_cons_of_neg (by simpa using hk),
              List.filter_cons_of_neg (by simpa using hk)] at hrest

namespace Actor

theorem isExecuted_advanced_iff (a : Actor) (count index : Nat) :
    (a.advanced count).isExecuted index = true ↔ index < a.length ∧ index < count := by
  simp only [isExecuted, advanced, List.getElem?_mapIdx, Option.any_map, length]
  by_cases hindex : index < a.transitions.length <;> simp [hindex]

/-- The marks tell all that can differ between two stages of one actor. -/
theorem advanced_eq_of_progress_eq {a : Actor} {count count' : Nat}
    (h : (a.advanced count).progress = (a.advanced count').progress) :
    a.advanced count = a.advanced count' := by
  apply Actor.ext
  · rfl
  · apply List.ext_getElem?
    intro index
    have hmark := congrArg (fun marks => marks[index]?) h
    simp only [progress, advanced, List.getElem?_map, List.getElem?_mapIdx] at hmark ⊢
    cases ht : a.transitions[index]? with
    | none => rfl
    | some t =>
        rw [ht] at hmark
        simp only [Option.map_some, Option.some.injEq] at hmark ⊢
        rw [hmark]

end Actor

namespace State

variable {s : State} {fired fired' : List Label}

/-- The owners of what a history posts to one side of a mailbox, in order. -/
def posters (s : State) (fired : List Label) (mailbox : MailboxId) (side : Side) :
    List ActorId :=
  (s.posts fired mailbox side).map Prod.fst

/-! ### What a final state tells about a run -/

/-- Of each actor a run fires the first labels, in their order. -/
theorem AdmissibleRun.filter_owner (h : s.AdmissibleRun fired) (owner : ActorId) :
    fired.filter (fun l => l.owner = owner) =
      (List.range (firedBy fired owner)).map fun position => ⟨position, owner⟩ := by
  induction fired using List.reverseRecOn with
  | nil => rfl
  | append_singleton past l ih =>
      obtain ⟨hrun, hlast⟩ := (admissibleRun_append_singleton_iff past l).1 h
      rw [List.filter_append, ih hrun, firedBy_append_singleton]
      by_cases howner : l.owner = owner
      · subst howner
        -- The last label is the next one of its actor.
        have hl : l = ⟨firedBy past l.owner, l.owner⟩ := Label.ext hlast.inTurn.position_eq rfl
        rw [if_pos rfl, List.range_succ, List.map_append, List.filter_singleton,
          decide_eq_true rfl]
        exact congrArg (_ ++ [·]) hl
      · rw [if_neg howner, List.filter_singleton, decide_eq_false howner]
        exact List.append_nil _

theorem AdmissibleRun.mem_iff (h : s.AdmissibleRun fired) (l : Label) :
    l ∈ fired ↔ l.position < firedBy fired l.owner := by
  have hmem : l ∈ fired ↔ l ∈ fired.filter fun l' => l'.owner = l.owner := by simp
  rw [hmem, h.filter_owner]
  simp [Label.ext_iff]

/-- The labels of a run are the transitions that are executed in its final state. -/
theorem AdmissibleRun.mem_iff_isExecuted (hinitial : s.IsInitial) (h : s.AdmissibleRun fired)
    (l : Label) : l ∈ fired ↔
      ∃ a, (s.after fired).actors.get? l.owner = some a ∧ a.isExecuted l.position = true := by
  constructor
  · intro hl
    obtain ⟨index, hindex⟩ := List.mem_iff_getElem?.1 hl
    obtain ⟨a, ha, hlt⟩ := (h index l hindex).inTurn.position_lt
    exact ⟨_, hinitial.get?_actors_after_of_eq ha fired,
      (a.isExecuted_advanced_iff ..).2 ⟨hlt, (h.mem_iff l).1 hl⟩⟩
  · rintro ⟨a, ha, hexecuted⟩
    rw [get?_actors_after] at ha
    obtain ⟨b, hb, rfl⟩ := Option.map_eq_some_iff.1 ha
    rw [hinitial.actor_id hb] at hexecuted
    exact (h.mem_iff l).2 ((b.isExecuted_advanced_iff ..).1 hexecuted).2

/-- Who posted, and in which order, stands in the logs of the final state. -/
theorem IsInitial.posters_eq (h : s.IsInitial) (fired : List Label) (mailbox : MailboxId)
    (side : Side) : s.posters fired mailbox side =
      (((s.after fired).mailboxes.get? mailbox).map fun m =>
        (m.log side).map Record.owner).getD [] := by
  unfold posters
  cases hm : s.mailboxes.get? mailbox with
  | none =>
      -- No label posts to a mailbox that does not exist.
      have hnone : s.posts fired mailbox side = [] := by
        refine List.filterMap_eq_nil_iff.2 fun l _ => ?_
        rw [Option.eq_none_iff_forall_ne_some]
        rintro ⟨owner, comm⟩ hposted
        obtain ⟨m, hm'⟩ := h.exists_mailbox (posted?_eq_some_iff.1 hposted).2 rfl
        rw [hm] at hm'
        cases hm'
      simp [hm, hnone]
  | some m =>
      rw [h.get?_mailboxes_after_of_eq hm, Option.map_some, Option.getD_some,
        Mailbox.log_holding, map_owner_recordsOf]

/-! ### What a final state is told by -/

/-- Runs that fire the same labels fire equally many of each actor. -/
theorem AdmissibleRun.firedBy_eq (h : s.AdmissibleRun fired) (h' : s.AdmissibleRun fired')
    (hsame : ∀ l, l ∈ fired ↔ l ∈ fired') (owner : ActorId) :
    firedBy fired owner = firedBy fired' owner := by
  have hpositions : ∀ position, position < firedBy fired owner ↔
      position < firedBy fired' owner := by
    intro position
    have hl := hsame ⟨position, owner⟩
    rwa [h.mem_iff, h'.mem_iff] at hl
  have hle := hpositions (firedBy fired' owner)
  have hle' := hpositions (firedBy fired owner)
  omega

/-- What one actor posts to a log, in order. -/
theorem filter_posts (s : State) (fired : List Label) (mailbox : MailboxId) (side : Side)
    (owner : ActorId) :
    (s.posts fired mailbox side).filter (fun post => post.1 = owner) =
      s.posts (fired.filter fun l => l.owner = owner) mailbox side := by
  unfold posts
  rw [List.filter_filterMap, List.filterMap_filter]
  refine List.filterMap_congr fun l _ => ?_
  cases hposted : s.posted? mailbox side l with
  | none => simp
  | some post =>
      obtain ⟨howner, -⟩ := posted?_eq_some_iff.1 hposted
      simp [Option.filter, howner]

/-- Runs that fire the same labels and let the actors come to a log in the same order post
the same to it. -/
theorem AdmissibleRun.posts_eq (h : s.AdmissibleRun fired) (h' : s.AdmissibleRun fired')
    (hsame : ∀ l, l ∈ fired ↔ l ∈ fired') {mailbox : MailboxId} {side : Side}
    (hposters : s.posters fired mailbox side = s.posters fired' mailbox side) :
    s.posts fired mailbox side = s.posts fired' mailbox side := by
  refine eq_of_map_fst_eq hposters fun owner => ?_
  rw [filter_posts, filter_posts, h.filter_owner, h'.filter_owner, h.firedBy_eq h' hsame]

theorem AdmissibleRun.after_eq (h : s.AdmissibleRun fired) (h' : s.AdmissibleRun fired')
    (hsame : ∀ l, l ∈ fired ↔ l ∈ fired')
    (hposters : ∀ mailbox side,
      s.posters fired mailbox side = s.posters fired' mailbox side) :
    s.after fired = s.after fired' :=
  after_congr (h.firedBy_eq h' hsame) fun mailbox side =>
    h.posts_eq h' hsame (hposters mailbox side)

/-- What is not compared is the same after all histories. -/
theorem IsInitial.after_eq_of_sameProgress (h : s.IsInitial) (hsound : (s.after fired).IsSound)
    (hsound' : (s.after fired').IsSound)
    (hsame : (s.after fired).sameProgress (s.after fired') = true) :
    s.after fired = s.after fired' := by
  apply State.ext
  · apply Table.ext_get?
    intro id
    cases ha : s.actors.get? id with
    | none => simp [ha]
    | some a =>
        have hafter := h.get?_actors_after_of_eq ha
        have hprogress := progress_eq_of_sameProgress hsound hsound' hsame (hafter _) (hafter _)
        rw [hafter, hafter, Actor.advanced_eq_of_progress_eq hprogress]
  · apply Table.ext_get?
    intro id
    cases hm : s.mailboxes.get? id with
    | none => simp [hm]
    | some m =>
        have hafter := h.get?_mailboxes_after_of_eq hm
        have hlog := log_eq_of_sameProgress hsound hsound' hsame (hafter _) (hafter _)
        rw [hafter, hafter]
        exact congrArg some (Mailbox.ext_log rfl hlog rfl)

/-- **The comparison tells final states apart.**  Of two runs from one built state the final
states compare as equal iff they are the same in every respect; and they are the same iff the
runs fire the same transitions and the actors come to each side of each mailbox in the same
order. -/
theorem sameProgress_tells_apart {s₀ s s' : State} {w w' : Trace} (hbuilt : s₀.IsBuilt)
    (hreplay : w.replay s₀ = .ok s) (hreplay' : w'.replay s₀ = .ok s') :
    (s.sameProgress s' = true ↔ s = s') ∧
      (s = s' ↔ (∀ l, l ∈ w.labels ↔ l ∈ w'.labels) ∧
        ∀ mailbox side, s₀.posters w.labels mailbox side = s₀.posters w'.labels mailbox side) := by
  have hinitial := hbuilt.isInitial
  have hsound := hinitial.isSound.replay hreplay
  have hsound' := hinitial.isSound.replay hreplay'
  obtain ⟨hrun, rfl⟩ := hinitial.replay_eq_ok_iff.1 hreplay
  obtain ⟨hrun', rfl⟩ := hinitial.replay_eq_ok_iff.1 hreplay'
  constructor
  · constructor
    · exact hinitial.after_eq_of_sameProgress hsound hsound'
    · intro heq
      rw [heq]
      exact sameProgress_refl _
  · constructor
    · intro heq
      constructor
      · intro l
        rw [hrun.mem_iff_isExecuted hinitial, hrun'.mem_iff_isExecuted hinitial, heq]
      · intro mailbox side
        rw [hinitial.posters_eq, hinitial.posters_eq, heq]
    · rintro ⟨hsame, hposters⟩
      exact hrun.after_eq hrun' hsame hposters

/-- The first actor is the first to send, and the receive comes before the sends. -/
def receiveFirst : Trace :=
  [⟨⟨0, 2⟩, .post .receive 1 0, false⟩, ⟨⟨0, 0⟩, .post .send 1 0, false⟩,
    ⟨⟨0, 1⟩, .post .send 1 5, false⟩]

/-- The first actor is the first to send, and the receive comes after the sends. -/
def receiveLast : Trace :=
  [⟨⟨0, 0⟩, .post .send 1 0, false⟩, ⟨⟨0, 1⟩, .post .send 1 5, false⟩,
    ⟨⟨0, 2⟩, .post .receive 1 0, false⟩]

/-- The first actor is the last to send. -/
def otherSendFirst : Trace :=
  [⟨⟨0, 1⟩, .post .send 1 5, false⟩, ⟨⟨0, 0⟩, .post .send 1 0, false⟩,
    ⟨⟨0, 2⟩, .post .receive 1 0, false⟩]

theorem sameProgress_tells_apart_in_letterbox :
    letterbox.IsBuilt ∧
      receiveFirst.replay letterbox = .ok (letterbox.after receiveFirst.labels) ∧
      receiveLast.replay letterbox = .ok (letterbox.after receiveLast.labels) ∧
      otherSendFirst.replay letterbox = .ok (letterbox.after otherSendFirst.labels) ∧
      letterbox.after receiveFirst.labels = letterbox.after receiveLast.labels ∧
      (letterbox.after receiveLast.labels).sameProgress
        (letterbox.after otherSendFirst.labels) ≠ true := by
  have hfirst : receiveFirst.replay letterbox = .ok (letterbox.after receiveFirst.labels) := by
    decide
  have hlast : receiveLast.replay letterbox = .ok (letterbox.after receiveLast.labels) := by
    decide
  have hother : otherSendFirst.replay letterbox =
      .ok (letterbox.after otherSendFirst.labels) := by
    decide
  have hsame : (letterbox.after receiveFirst.labels).sameProgress
      (letterbox.after receiveLast.labels) = true := by
    decide
  refine ⟨letterbox_isBuilt, hfirst, hlast, hother, ?_, fun hequal => ?_⟩
  · exact (sameProgress_tells_apart letterbox_isBuilt hfirst hlast).1.1 hsame
  · -- The two senders come to the mailbox in different orders.
    obtain ⟨hiff, horder⟩ := sameProgress_tells_apart letterbox_isBuilt hlast hother
    have hposters := (horder.1 (hiff.1 hequal)).2 1 .send
    revert hposters
    decide

end State

end Interleaving
