import Interleaving.Proofs.Admissibility

/-!
# Replaying traces

A replay of a trace from a built state needs no simulation: it succeeds iff each
label is admissible after the labels before it, its final state is `State.after`
of the labels, and otherwise it returns the error of the first label that is
refused.  The run statements are proved from the step statements by induction on
the last label.
-/

namespace Interleaving

namespace Trace

@[simp] theorem labels_append (w w' : Trace) :
    Trace.labels (w ++ w') = w.labels ++ w'.labels := by
  simp [labels]

theorem replay_append (w w' : Trace) (s : State) :
    Trace.replay (w ++ w') s = (w.replay s).bind fun middle => w'.replay middle := by
  unfold replay
  exact List.foldlM_append

theorem replay_cons (t : Transition) (w : Trace) (s : State) :
    Trace.replay (t :: w) s = (s.execute t.label).bind fun next => w.replay next := rfl

theorem replay_cons_eq_ok_iff {t : Transition} {w : Trace} {s s' : State} :
    replay (t :: w) s = .ok s' ↔
      ∃ next, s.execute t.label = .ok next ∧ replay w next = .ok s' := by
  rw [replay_cons]
  cases s.execute t.label <;> simp [Except.bind]

/-- A replay looks at the labels only. -/
theorem replay_congr {w w' : Trace} (h : w.labels = w'.labels) (s : State) :
    w.replay s = w'.replay s := by
  have hreplay : ∀ w : Trace, w.replay s = w.labels.foldlM State.execute s := by
    intro w
    simp only [replay, labels, List.foldlM_map]
  rw [hreplay, hreplay, h]

end Trace

namespace State

variable {s : State}

/-- Each label can be fired after those before it. -/
def AdmissibleRun (s : State) (fired : List Label) : Prop :=
  ∀ (index : Nat) (l : Label), fired[index]? = some l → s.Admissible (fired.take index) l

/-- There is a first label that cannot be fired, and it is refused with `error`. -/
def FirstRefusal (s : State) (fired : List Label) (error : ModelError) : Prop :=
  ∃ (index : Nat) (l : Label), fired[index]? = some l ∧
    (∀ (earlier : Nat) (l' : Label), earlier < index → fired[earlier]? = some l' →
      s.Admissible (fired.take earlier) l') ∧
    s.Refuses (fired.take index) l error

theorem admissibleRun_append_singleton_iff (fired : List Label) (l : Label) :
    s.AdmissibleRun (fired ++ [l]) ↔ s.AdmissibleRun fired ∧ s.Admissible fired l := by
  constructor
  · intro h
    constructor
    · intro index l' hl'
      have hlt := (List.getElem?_eq_some_iff.1 hl').1
      have hindex := h index l' (by rw [List.getElem?_append_left hlt, hl'])
      rwa [List.take_append_of_le_length (by omega)] at hindex
    · have hlast := h fired.length l (by simp)
      rwa [List.take_left] at hlast
  · rintro ⟨hrun, hlast⟩ index l' hl'
    by_cases hlt : index < fired.length
    · rw [List.getElem?_append_left hlt] at hl'
      rw [List.take_append_of_le_length (by omega)]
      exact hrun index l' hl'
    · have hindex : index = fired.length := by
        have hbound := (List.getElem?_eq_some_iff.1 hl').1
        simp only [List.length_append, List.length_singleton] at hbound
        omega
      subst hindex
      simp only [List.getElem?_concat_length, Option.some.injEq] at hl'
      subst hl'
      rwa [List.take_left]

/-- A list of labels can be fired, or there is a first label that is refused. -/
theorem admissibleRun_or_firstRefusal (s : State) (fired : List Label) :
    s.AdmissibleRun fired ∨ ∃ error, s.FirstRefusal fired error := by
  classical
  by_cases hrun : s.AdmissibleRun fired
  · exact .inl hrun
  · have hexists : ∃ index l, fired[index]? = some l ∧ ¬ s.Admissible (fired.take index) l := by
      unfold AdmissibleRun at hrun
      push Not at hrun
      exact hrun
    obtain ⟨l, hl, hnot⟩ := Nat.find_spec hexists
    have hearlier : ∀ (earlier : Nat) (l' : Label), earlier < Nat.find hexists →
        fired[earlier]? = some l' → s.Admissible (fired.take earlier) l' := by
      intro earlier l' hless hl'
      by_contra hnot'
      exact Nat.find_min hexists hless ⟨l', hl', hnot'⟩
    rcases s.admissible_or_refuses (fired.take (Nat.find hexists)) l with hok | ⟨error, hrefuses⟩
    · exact absurd hok hnot
    · exact .inr ⟨error, Nat.find hexists, l, hl, hearlier, hrefuses⟩

/-- No label can be fired twice: its actor has gone on. -/
theorem AdmissibleRun.nodup {fired : List Label} (h : s.AdmissibleRun fired) : fired.Nodup := by
  induction fired using List.reverseRecOn with
  | nil => exact List.nodup_nil
  | append_singleton fired l ih =>
      obtain ⟨hrun, hlast⟩ := (admissibleRun_append_singleton_iff fired l).1 h
      rw [← List.concat_eq_append, List.nodup_concat]
      refine ⟨fun hmem => ?_, ih hrun⟩
      obtain ⟨index, hl⟩ := List.mem_iff_getElem?.1 hmem
      have hthen := (hrun index l hl).inTurn.position_eq
      have hnow := hlast.inTurn.position_eq
      have hlt := firedBy_take_lt hl
      omega

/-- No bound is exceeded by a list of labels that can be fired. -/
theorem AdmissibleRun.length_posts_le {fired : List Label} (h : s.AdmissibleRun fired)
    {mailbox : MailboxId} {m : Mailbox} (hm : s.mailboxes.get? mailbox = some m)
    {capacity : Nat} (hcapacity : m.capacity = some capacity) (side : Side) :
    (s.posts fired mailbox side).length ≤ capacity := by
  induction fired using List.reverseRecOn with
  | nil => exact Nat.zero_le _
  | append_singleton fired l ih =>
      obtain ⟨hrun, hlast⟩ := (admissibleRun_append_singleton_iff fired l).1 h
      -- A log grows only by a label that posts to it, and that label had room.
      rw [posts_append_singleton]
      cases hposted : s.posted? mailbox side l with
      | none => simpa using ih hrun
      | some post =>
          obtain ⟨-, haction⟩ := posted?_eq_some_iff.1 hposted
          have hroom := hlast.hasRoom side mailbox post.2 m capacity haction hm hcapacity
          rw [Option.toList_some, List.length_append, List.length_singleton]
          omega

namespace IsInitial

/-- **A run that succeeds.**  The state after admissible labels is predicted. -/
theorem replay_of_admissibleRun (h : s.IsInitial) {w : Trace}
    (hrun : s.AdmissibleRun w.labels) : w.replay s = .ok (s.after w.labels) := by
  -- Induction on the last label: it is fired in the state predicted for the others.
  induction w using List.reverseRecOn with
  | nil => exact congrArg Except.ok h.after_nil.symm
  | append_singleton w t ih =>
      rw [Trace.labels_append] at hrun ⊢
      obtain ⟨hrun, hlast⟩ := (admissibleRun_append_singleton_iff _ _).1 hrun
      rw [Trace.replay_append, ih hrun]
      exact congrArg (fun result => result.bind pure) (h.execute_after_of_admissible hlast)

/-- **A run that fails.**  The first label that is refused gives the error. -/
theorem replay_of_firstRefusal (h : s.IsInitial) {w : Trace} {error : ModelError}
    (hrefusal : s.FirstRefusal w.labels error) : w.replay s = .error error := by
  obtain ⟨index, l, hl, hearlier, hrefuses⟩ := hrefusal
  obtain ⟨t, ht, rfl⟩ : ∃ t, w[index]? = some t ∧ t.label = l := by
    simpa [Trace.labels] using hl
  have hlabels : Trace.labels (w.take index) = w.labels.take index := List.map_take ..
  -- Up to the label that is refused the trace is a run that succeeds.
  have hrun : s.AdmissibleRun (Trace.labels (w.take index)) := by
    intro earlier l' hl'
    rw [hlabels, List.getElem?_take] at hl'
    split at hl'
    case isFalse => cases hl'
    case isTrue hless =>
      rw [hlabels, List.take_take, Nat.min_eq_left (by omega)]
      exact hearlier earlier l' hless hl'
  have hsplit : w = w.take index ++ t :: w.drop (index + 1) := by
    obtain ⟨hlt, rfl⟩ := List.getElem?_eq_some_iff.1 ht
    rw [List.getElem_cons_drop, List.take_append_drop]
  rw [hsplit, Trace.replay_append, h.replay_of_admissibleRun hrun, hlabels]
  show Trace.replay (t :: _) _ = _
  rw [Trace.replay_cons, h.execute_after_of_refuses hrefuses]
  rfl

theorem replay_eq_ok_iff (h : s.IsInitial) {w : Trace} {s' : State} :
    w.replay s = .ok s' ↔ s.AdmissibleRun w.labels ∧ s' = s.after w.labels := by
  constructor
  · intro hreplay
    rcases s.admissibleRun_or_firstRefusal w.labels with hrun | ⟨error, hrefusal⟩
    · rw [h.replay_of_admissibleRun hrun] at hreplay
      cases hreplay
      exact ⟨hrun, rfl⟩
    · rw [h.replay_of_firstRefusal hrefusal] at hreplay
      cases hreplay
  · rintro ⟨hrun, rfl⟩
    exact h.replay_of_admissibleRun hrun

theorem replay_eq_error_iff (h : s.IsInitial) {w : Trace} {error : ModelError} :
    w.replay s = .error error ↔ s.FirstRefusal w.labels error := by
  constructor
  · intro hreplay
    rcases s.admissibleRun_or_firstRefusal w.labels with hrun | ⟨error', hrefusal⟩
    · rw [h.replay_of_admissibleRun hrun] at hreplay
      cases hreplay
    · rw [h.replay_of_firstRefusal hrefusal] at hreplay
      cases hreplay
      exact hrefusal
  · exact h.replay_of_firstRefusal

end IsInitial

/-- **A replay ends in the predicted state**, and no log is then longer than the
capacity of its mailbox. -/
theorem replay_eq_after {s₀ s : State} {w : Trace} (hbuilt : s₀.IsBuilt)
    (hreplay : w.replay s₀ = .ok s) :
    s = s₀.after w.labels ∧
      ∀ (mailbox : MailboxId) (m : Mailbox) (side : Side) (capacity : Nat),
        s.mailboxes.get? mailbox = some m → m.capacity = some capacity →
          (m.log side).length ≤ capacity := by
  have hinitial := hbuilt.isInitial
  obtain ⟨hrun, rfl⟩ := hinitial.replay_eq_ok_iff.1 hreplay
  refine ⟨rfl, fun mailbox m side capacity hm hcapacity => ?_⟩
  rw [get?_mailboxes_after] at hm
  obtain ⟨m₀, hm₀, rfl⟩ := Option.map_eq_some_iff.1 hm
  rw [Mailbox.log_holding, length_recordsOf, hinitial.mailbox_id hm₀]
  exact hrun.length_posts_le hm₀ hcapacity side

/-- A sender, a receiver that waits for its message, and a mailbox for one
message between them. -/
def rendezvous : State :=
  ofParts [Actor.ofActions 0 [.post .send 1 0], Actor.ofActions 1 [.post .receive 1 0, .wait 1 0]]
    [Mailbox.fresh 1 (some 1)]

theorem rendezvous_isBuilt : rendezvous.IsBuilt :=
  .inr ⟨2, [(0, [.post .send 1 0]), (1, [.post .receive 1 0, .wait 1 0])], [(1, some 1)], rfl⟩

/-- The receiver comes first, the message arrives, and the wait ends. -/
def meeting : Trace :=
  [⟨⟨0, 1⟩, .post .receive 1 0, false⟩, ⟨⟨0, 0⟩, .post .send 1 0, false⟩,
    ⟨⟨1, 1⟩, .wait 1 0, false⟩]

theorem replay_meeting_eq_after :
    rendezvous.IsBuilt ∧ meeting.replay rendezvous = .ok (rendezvous.after meeting.labels) ∧
      ∀ (mailbox : MailboxId) (m : Mailbox) (side : Side) (capacity : Nat),
        (rendezvous.after meeting.labels).mailboxes.get? mailbox = some m →
          m.capacity = some capacity → (m.log side).length ≤ capacity := by
  have hreplay : meeting.replay rendezvous = .ok (rendezvous.after meeting.labels) := by decide
  exact ⟨rendezvous_isBuilt, hreplay, (replay_eq_after rendezvous_isBuilt hreplay).2⟩

/-- **A replay is decided by the labels alone**: it succeeds iff each label is
admissible after those before it, and otherwise returns the error of the first
label that is refused. -/
theorem replay_decided_by_labels {s₀ : State} (hbuilt : s₀.IsBuilt) (w : Trace) :
    ((∃ s, w.replay s₀ = .ok s) ↔
      ∀ (index : Nat) (l : Label), w.labels[index]? = some l →
        s₀.Admissible (w.labels.take index) l) ∧
    ∀ error, w.replay s₀ = .error error ↔ s₀.FirstRefusal w.labels error := by
  have hinitial := hbuilt.isInitial
  refine ⟨?_, fun error => hinitial.replay_eq_error_iff⟩
  constructor
  · rintro ⟨s, hreplay⟩
    exact (hinitial.replay_eq_ok_iff.1 hreplay).1
  · intro hrun
    exact ⟨_, hinitial.replay_of_admissibleRun hrun⟩

/-- The receiver waits before there is a message. -/
def impatience : Trace :=
  [⟨⟨0, 1⟩, .post .receive 1 0, false⟩, ⟨⟨1, 1⟩, .wait 1 0, false⟩,
    ⟨⟨0, 0⟩, .post .send 1 0, false⟩]

theorem replay_impatience_decided :
    rendezvous.IsBuilt ∧ impatience.replay rendezvous = .error (.notEnabled ⟨1, 1⟩) ∧
      rendezvous.FirstRefusal impatience.labels (.notEnabled ⟨1, 1⟩) := by
  have hreplay : impatience.replay rendezvous = .error (.notEnabled ⟨1, 1⟩) := by decide
  exact ⟨rendezvous_isBuilt, hreplay,
    ((replay_decided_by_labels rendezvous_isBuilt impatience).2 _).1 hreplay⟩

end State

end Interleaving
