import Interleaving.Proofs.Determinism
import Interleaving.Proofs.Failure

/-!
# Bounded and unbounded models

A bound on the logs of a mailbox only ever stops a post; it has no part in matching posts or
in holding back waits.  So a state and the state without its bounds (`State.unbounded`) take
the same steps for as long as no log is full (`State.execute_unbounded_of_ok`), and where the
bounded one stops the other one makes a log too long (`State.execute_unbounded_of_error`).
Logs never get shorter, so a log that is too long is still too long when the run ends.
-/

namespace Interleaving

namespace Mailbox

/-- The mailbox without a bound on its logs. -/
def unbounded (m : Mailbox) : Mailbox := { m with capacity := none }

@[simp] theorem log_unbounded (m : Mailbox) (side : Side) : m.unbounded.log side = m.log side := by
  cases side <;> rfl

theorem unbounded_withLog (m : Mailbox) (side : Side) (records : List Record) :
    (m.withLog side records).unbounded = m.unbounded.withLog side records := by
  cases side <;> rfl

theorem unbounded_append (m : Mailbox) (side : Side) (owner : ActorId) (comm : CommId) :
    (m.append side owner comm).unbounded = m.unbounded.append side owner comm := by
  unfold append
  rw [log_unbounded, log_unbounded]
  cases settle? (m.log side.partner) with
  | none => exact unbounded_withLog _ _ _
  | some settled => rw [unbounded_withLog, unbounded_withLog]

theorem hasRoom_unbounded (m : Mailbox) (side : Side) : m.unbounded.HasRoom side := by
  intro capacity hcapacity
  cases hcapacity

/-- Without a bound every post to the mailbox is taken. -/
theorem update_unbounded {m : Mailbox} {t : Transition} {side : Side} {comm : CommId}
    (h : t.action = .post side m.id comm) :
    m.unbounded.update t = .ok (m.append side t.owner comm).unbounded := by
  rw [update_eq_ok_iff]
  exact ⟨side, comm, h, m.hasRoom_unbounded side, m.unbounded_append side t.owner comm⟩

theorem length_log_le_append (m : Mailbox) (side : Side) (owner : ActorId) (comm : CommId)
    (side' : Side) : (m.log side').length ≤ ((m.append side owner comm).log side').length := by
  obtain ⟨hself, hpartner⟩ := m.length_log_append side owner comm
  rcases Side.eq_or_eq_partner side side' with rfl | rfl
  · omega
  · exact hpartner.ge

end Mailbox

namespace Blueprint

/-- The blueprint without a bound on logs. -/
def unbounded (b : Blueprint) : Blueprint := { b with bounds := { b.bounds with logLength := none } }

theorem overlong_unbounded (b : Blueprint) : b.unbounded.overlong = b.overlong := rfl

theorem placed_unbounded (b : Blueprint) : b.unbounded.placed = b.placed := rfl

theorem freshMailboxes_unbounded (b : Blueprint) :
    b.unbounded.freshMailboxes = b.freshMailboxes.map Mailbox.unbounded := by
  unfold freshMailboxes
  rw [List.map_map]
  rfl

end Blueprint

namespace State

variable {s s' : State}

/-- The state without bounds on its mailboxes. -/
def unbounded (s : State) : State := ⟨s.actors, s.mailboxes.map Mailbox.unbounded⟩

/-- The bound on the logs of a mailbox, if the mailbox exists and has one. -/
def bound? (s : State) (id : MailboxId) : Option Nat :=
  (s.mailboxes.get? id).bind Mailbox.capacity

/-- No log of `u` is longer than its mailbox in `s` allows. -/
def WithinBounds (u s : State) : Prop :=
  ∀ (id : MailboxId) (m : Mailbox) (side : Side) (capacity : Nat), s.bound? id = some capacity →
    u.mailboxes.get? id = some m → (m.log side).length ≤ capacity

/-! ### One step -/

theorem isReady_unbounded (s : State) (t : Transition) : s.unbounded.isReady t = s.isReady t := by
  unfold isReady unbounded
  split
  case h_1 mailbox comm hwait =>
    rw [Table.get?_map, Option.any_map]
    rfl
  case h_2 => rfl

theorem offer?_unbounded (s : State) (a : Actor) : s.unbounded.offer? a = s.offer? a := by
  unfold offer?
  rw [funext s.isReady_unbounded]

theorem deliver_unbounded_of_post {t : Transition} {side : Side} {mailbox : MailboxId}
    {comm : CommId} {m : Mailbox} (haction : t.action = .post side mailbox comm)
    (hm : s.mailboxes.get? mailbox = some m) (hid : m.id = mailbox) :
    s.unbounded.deliver t =
      .ok ((s.mailboxes.insert mailbox (m.append side t.owner comm)).map Mailbox.unbounded) := by
  subst hid
  have hm' : s.unbounded.mailboxes.get? m.id = some m.unbounded := by
    show (s.mailboxes.map Mailbox.unbounded).get? m.id = _
    rw [Table.get?_map, hm, Option.map_some]
  rw [deliver_of_post haction hm', Mailbox.update_unbounded haction, Table.map_insert]
  rfl

theorem deliver_unbounded_of_ok {t : Transition} {mailboxes : Table Mailbox}
    (h : s.deliver t = .ok mailboxes) :
    s.unbounded.deliver t = .ok (mailboxes.map Mailbox.unbounded) := by
  rcases deliver_eq_ok_cases h with
    ⟨side, mailbox, comm, m, m', haction, hm, hupdate, rfl⟩ | ⟨hnot, rfl⟩
  · obtain ⟨side', comm', haction', -, rfl⟩ := Mailbox.update_eq_ok_iff.1 hupdate
    rw [haction, Action.post.injEq] at haction'
    obtain ⟨rfl, hid, rfl⟩ := haction'
    exact deliver_unbounded_of_post haction hm hid.symm
  · exact deliver_of_not_post hnot

/-- **One step that succeeds.**  The state without bounds takes it too. -/
theorem execute_unbounded_of_ok {l : Label} (h : s.execute l = .ok s') :
    s.unbounded.execute l = .ok s'.unbounded := by
  obtain ⟨a, t, mailboxes, ha, hoffer, hposition, hdeliver, rfl⟩ := execute_eq_ok_iff.1 h
  exact execute_eq_ok_iff.2 ⟨a, t, _, ha, (s.offer?_unbounded a).trans hoffer, hposition,
    deliver_unbounded_of_ok hdeliver, rfl⟩

/-- The state without bounds can post where the log is full, and the log is then too long. -/
theorem exists_execute_unbounded_of_overfills (hs : s.IsSound) {l : Label} {a : Actor}
    {t : Transition} {side : Side} {mailbox : MailboxId} {capacity : Nat}
    (ha : s.actors.get? l.owner = some a) (hoffer : s.offer? a = some t)
    (hposition : t.position = l.position) (hfull : s.Overfills t side mailbox capacity) :
    ∃ u, s.unbounded.execute l = .ok u ∧ ¬ u.WithinBounds s := by
  obtain ⟨comm, m, haction, hm, hcapacity, hlength⟩ := hfull
  have hdeliver := deliver_unbounded_of_post haction hm (hs.mailbox_id hm)
  refine ⟨_, execute_eq_ok_iff.2 ⟨a, t, _, ha, (s.offer?_unbounded a).trans hoffer, hposition,
    hdeliver, rfl⟩, fun hwithin => ?_⟩
  have hbound : s.bound? mailbox = some capacity := by
    rw [bound?, hm, Option.bind_some, hcapacity]
  have hle := hwithin mailbox (m.append side t.owner comm).unbounded side capacity hbound (by simp)
  have hlonger := (m.length_log_append side t.owner comm).1
  rw [Mailbox.log_unbounded] at hle
  omega

/-- **One step that fails.**  The state without bounds fails alike, or it goes on and has a log
that is too long. -/
theorem execute_unbounded_of_error (hs : s.IsSound) {l : Label} {error : ModelError}
    (h : s.execute l = .error error) :
    s.unbounded.execute l = .error error ∨
      (∃ side mailbox capacity, error = .overCapacity (.log side mailbox) capacity) ∧
        ∃ u, s.unbounded.execute l = .ok u ∧ ¬ u.WithinBounds s := by
  cases hs.execute_eq_error_iff_fails.1 h with
  | unknownActor hactor => exact .inl (execute_of_get?_eq_none hactor)
  | notEnabled hactor hnot =>
      refine .inl (execute_of_not_offered hactor fun t hoffer => hnot t ?_)
      exact (s.offer?_unbounded _).symm.trans hoffer
  | overCapacity hactor hoffer hposition hfull =>
      exact .inr ⟨⟨_, _, _, rfl⟩,
        exists_execute_unbounded_of_overfills hs hactor hoffer hposition hfull⟩

/-! ### Logs and bounds along a run -/

/-- A step changes no bound. -/
theorem bound?_of_execute {l : Label} (h : s.execute l = .ok s') : s'.bound? = s.bound? := by
  obtain ⟨a, t, mailboxes, -, -, -, hdeliver, rfl⟩ := execute_eq_ok_iff.1 h
  funext id
  unfold bound?
  rcases get?_of_deliver hdeliver id with ⟨-, -, m, m', -, hm, hupdate, hm'⟩ | ⟨-, hsame⟩
  · obtain ⟨side, comm, -, -, rfl⟩ := Mailbox.update_eq_ok_iff.1 hupdate
    rw [hm', hm, Option.bind_some, Option.bind_some, Mailbox.capacity_append]
  · rw [hsame]

/-- A step makes no log shorter. -/
theorem exists_length_log_le_of_execute {l : Label} (h : s.execute l = .ok s') {id : MailboxId}
    {m : Mailbox} (hm : s.mailboxes.get? id = some m) :
    ∃ m', s'.mailboxes.get? id = some m' ∧
      ∀ side, (m.log side).length ≤ (m'.log side).length := by
  obtain ⟨a, t, mailboxes, -, -, -, hdeliver, rfl⟩ := execute_eq_ok_iff.1 h
  rcases get?_of_deliver hdeliver id with ⟨-, -, n, n', -, hn, hupdate, hn'⟩ | ⟨-, hsame⟩
  · rw [hm, Option.some.injEq] at hn
    subst hn
    obtain ⟨side, comm, -, -, rfl⟩ := Mailbox.update_eq_ok_iff.1 hupdate
    exact ⟨_, hn', m.length_log_le_append side t.owner comm⟩
  · exact ⟨m, hsame.trans hm, fun _ => Nat.le_refl _⟩

/-- A log that is too long stays too long. -/
theorem not_withinBounds_of_replay {u u' : State} {w : Trace} (h : w.replay u = .ok u')
    (hnot : ¬ u.WithinBounds s) : ¬ u'.WithinBounds s := by
  refine replay_induction (motive := fun u => ¬ u.WithinBounds s) ?_ hnot h
  intro v v' l hnot hstep hwithin
  refine hnot fun id m side capacity hbound hm => ?_
  obtain ⟨m', hm', hle⟩ := exists_length_log_le_of_execute hstep hm
  exact (hle side).trans (hwithin id m' side capacity hbound hm')

/-- A step posts to no log that is full. -/
theorem WithinBounds.execute {l : Label} (hwithin : s.WithinBounds s)
    (h : s.execute l = .ok s') : s'.WithinBounds s' := by
  have hbounds := bound?_of_execute h
  obtain ⟨a, t, mailboxes, -, -, -, hdeliver, rfl⟩ := execute_eq_ok_iff.1 h
  intro id m' side' capacity hbound hm'
  rw [hbounds] at hbound
  rcases get?_of_deliver hdeliver id with ⟨-, -, m, n', -, hm, hupdate, hn'⟩ | ⟨-, hsame⟩
  · rw [hn', Option.some.injEq] at hm'
    subst hm'
    obtain ⟨side, comm, -, hroom, rfl⟩ := Mailbox.update_eq_ok_iff.1 hupdate
    obtain ⟨hself, hpartner⟩ := m.length_log_append side t.owner comm
    rcases Side.eq_or_eq_partner side side' with rfl | rfl
    · have hcapacity : m.capacity = some capacity := by
        rwa [bound?, hm, Option.bind_some] at hbound
      have hlt := hroom capacity hcapacity
      omega
    · rw [hpartner]
      exact hwithin id m _ capacity hbound hm
  · exact hwithin id m' side' capacity hbound (hsame.symm.trans hm')

theorem IsInitial.withinBounds (h : s.IsInitial) : s.WithinBounds s := by
  intro id m side capacity _ hm
  obtain ⟨_, rfl⟩ := h.mailbox_eq hm
  cases side <;> exact Nat.zero_le _

theorem bound?_of_replay {w : Trace} (h : w.replay s = .ok s') : s'.bound? = s.bound? :=
  replay_induction (motive := fun u => u.bound? = s.bound?)
    (fun hs hstep => (bound?_of_execute hstep).trans hs) rfl h

/-- Whether a state keeps the bounds of another one depends on these bounds only, and on no
bounds of its own. -/
theorem withinBounds_congr {u : State} (h : s'.bound? = s.bound?) :
    u.WithinBounds s' ↔ u.WithinBounds s := by
  unfold WithinBounds
  rw [h]

theorem withinBounds_unbounded {u : State} : u.unbounded.WithinBounds s ↔ u.WithinBounds s := by
  unfold WithinBounds unbounded
  simp only [Table.get?_map, Option.map_eq_some_iff, forall_exists_index, and_imp]
  constructor
  · intro h id m side capacity hbound hm
    simpa using h id _ side capacity hbound m hm rfl
  · rintro h id _ side capacity hbound m hm rfl
    simpa using h id m side capacity hbound hm

/-! ### Runs -/

/-- **A run that succeeds.**  The state without bounds takes it too. -/
theorem replay_unbounded_of_ok {w : Trace} (h : w.replay s = .ok s') :
    w.replay s.unbounded = .ok s'.unbounded := by
  induction w generalizing s with
  | nil =>
      cases h
      rfl
  | cons t w ih =>
      obtain ⟨next, hnext, hrest⟩ := Trace.replay_cons_eq_ok_iff.1 h
      exact Trace.replay_cons_eq_ok_iff.2 ⟨_, execute_unbounded_of_ok hnext, ih hrest⟩

/-- **A run that fails.**  The state without bounds fails alike, or the run ends at a full log
and whatever the other state reaches has a log that is too long. -/
theorem replay_unbounded_of_error (hs : s.IsSound) {w : Trace} {error : ModelError}
    (h : w.replay s = .error error) :
    w.replay s.unbounded = .error error ∨
      (∃ side mailbox capacity, error = .overCapacity (.log side mailbox) capacity) ∧
        ∀ u, w.replay s.unbounded = .ok u → ¬ u.WithinBounds s := by
  induction w generalizing s with
  | nil => cases h
  | cons t w ih =>
      rw [Trace.replay_cons] at h ⊢
      cases hstep : s.execute t.label with
      | error failure =>
          rw [hstep] at h
          cases h
          rcases execute_unbounded_of_error hs hstep with hsame | ⟨hfull, u, hu, hnot⟩
          · exact .inl (by rw [hsame]; rfl)
          · -- From here on the log is too long.
            refine .inr ⟨hfull, fun u' hu' => ?_⟩
            rw [hu] at hu'
            exact not_withinBounds_of_replay hu' hnot
      | ok next =>
          rw [hstep] at h
          rw [execute_unbounded_of_ok hstep]
          rcases ih (hs.execute hstep) h with hsame | ⟨hfull, hnot⟩
          · exact .inl hsame
          · refine .inr ⟨hfull, fun u hu => ?_⟩
            rw [← withinBounds_congr (bound?_of_execute hstep)]
            exact hnot u hu

theorem IsInitial.withinBounds_of_replay (h : s.IsInitial) {w : Trace}
    (hreplay : w.replay s = .ok s') : s'.WithinBounds s := by
  rw [← withinBounds_congr (bound?_of_replay hreplay)]
  exact replay_induction (motive := fun s => s.WithinBounds s)
    (fun hwithin hstep => hwithin.execute hstep) h.withinBounds hreplay

theorem sameProgress_unbounded (s : State) : s.sameProgress s.unbounded = true := by
  simp [sameProgress, unbounded, Mailbox.unbounded]

/-! ### Building without bounds -/

theorem unbounded_ofParts (actors : List Actor) (mailboxes : List Mailbox) :
    (ofParts actors mailboxes).unbounded = ofParts actors (mailboxes.map Mailbox.unbounded) := by
  unfold ofParts unbounded
  rw [Table.map_ofList, List.map_map, List.map_map]
  rfl

/-- Whether a model has problems does not depend on the bounds of its mailboxes. -/
theorem problems_map_unbounded (declared : Nat) (actors : List Actor) (mailboxes : List Mailbox) :
    problems declared actors (mailboxes.map Mailbox.unbounded) =
      problems declared actors mailboxes := by
  have hids : (mailboxes.map Mailbox.unbounded).map Mailbox.id = mailboxes.map Mailbox.id := by
    rw [List.map_map]
    rfl
  unfold problems missingMailboxes
  rw [hids]

theorem make_unbounded {declared : Nat} {actors : List Actor} {mailboxes : List Mailbox}
    (h : make declared actors mailboxes = .ok s) :
    make declared actors (mailboxes.map Mailbox.unbounded) = .ok s.unbounded := by
  obtain ⟨hnone, rfl⟩ := make_eq_ok_iff.1 h
  rw [make_eq_ok_iff, problems_map_unbounded, unbounded_ofParts]
  exact ⟨hnone, rfl⟩

/-- Drawing up a model without a bound on logs gives the state without bounds. -/
theorem build_unbounded {b : Blueprint} (h : b.build = .ok s) :
    b.unbounded.build = .ok s.unbounded := by
  obtain ⟨hactors, hnone, rfl⟩ := Blueprint.build_eq_ok_iff.1 h
  have hobjections : b.unbounded.objections = b.objections := by
    unfold Blueprint.objections
    rw [Blueprint.overlong_unbounded, Blueprint.placed_unbounded,
      Blueprint.freshMailboxes_unbounded, problems_map_unbounded]
  refine Blueprint.build_eq_ok_iff.2 ⟨hactors, hobjections.trans hnone, ?_⟩
  rw [Blueprint.placed_unbounded, Blueprint.freshMailboxes_unbounded, unbounded_ofParts]

theorem IsBuilt.unbounded (h : s.IsBuilt) : s.unbounded.IsBuilt := by
  rcases h with ⟨b, hbuild⟩ | ⟨declared, actors, mailboxes, hmake⟩
  · exact .inl ⟨_, build_unbounded hbuild⟩
  · refine .inr ⟨declared, actors, mailboxes.map fun mailbox => (mailbox.1, none), ?_⟩
    have hmake' := make_unbounded hmake
    rw [List.map_map] at hmake' ⊢
    exact hmake'

/-- **Bounds only stop a run.**  A built state without its bounds is a built state.  A trace
can be replayed with bounds iff it can be replayed without them and no log is then longer than
its bound, and both replays end with the same progress.  If a log is longer than its bound,
the bounded replay stops at a full log; if the replay without bounds fails, the bounded one
fails alike or stops at a full log. -/
theorem replay_refines_unbounded {s₀ : State} (hbuilt : s₀.IsBuilt) :
    s₀.unbounded.IsBuilt ∧ ∀ w : Trace,
      ((∃ s, w.replay s₀ = .ok s) ↔
        ∃ u, w.replay s₀.unbounded = .ok u ∧ u.WithinBounds s₀) ∧
      (∀ s u, w.replay s₀ = .ok s → w.replay s₀.unbounded = .ok u →
        s.sameProgress u = true ∧ s.unbounded = u) ∧
      (∀ u, w.replay s₀.unbounded = .ok u → ¬ u.WithinBounds s₀ →
        ∃ side mailbox capacity,
          w.replay s₀ = .error (.overCapacity (.log side mailbox) capacity)) ∧
      ∀ error, w.replay s₀.unbounded = .error error →
        w.replay s₀ = .error error ∨ ∃ side mailbox capacity,
          w.replay s₀ = .error (.overCapacity (.log side mailbox) capacity) := by
  have hinitial := hbuilt.isInitial
  refine ⟨hbuilt.unbounded, fun w => ?_⟩
  cases hreplay : w.replay s₀ with
  | ok s =>
      have hwithin := withinBounds_unbounded.2 (hinitial.withinBounds_of_replay hreplay)
      have hunbounded := replay_unbounded_of_ok hreplay
      refine ⟨⟨fun _ => ⟨_, hunbounded, hwithin⟩, fun _ => ⟨s, rfl⟩⟩, ?_, ?_, ?_⟩
      · intro s' u hs' hu
        rw [hunbounded] at hu
        cases hs'
        cases hu
        exact ⟨s.sameProgress_unbounded, rfl⟩
      · intro u hu hnot
        rw [hunbounded] at hu
        cases hu
        exact absurd hwithin hnot
      · intro error herror
        rw [hunbounded] at herror
        cases herror
  | error error =>
      rcases replay_unbounded_of_error hinitial.isSound hreplay with hsame | ⟨hfull, hnot⟩
      · refine ⟨⟨?_, ?_⟩, ?_, ?_, ?_⟩
        · rintro ⟨s, hs⟩
          cases hs
        · rintro ⟨u, hu, -⟩
          rw [hsame] at hu
          cases hu
        · intro s u hs
          cases hs
        · intro u hu
          rw [hsame] at hu
          cases hu
        · intro error' herror'
          rw [hsame] at herror'
          exact .inl herror'
      · obtain ⟨side, mailbox, capacity, rfl⟩ := hfull
        refine ⟨⟨?_, ?_⟩, ?_, fun _ _ _ => ⟨_, _, _, rfl⟩, fun _ _ => .inr ⟨_, _, _, rfl⟩⟩
        · rintro ⟨s, hs⟩
          cases hs
        · rintro ⟨u, hu, hwithin⟩
          exact absurd hwithin (hnot u hu)
        · intro s u hs
          cases hs

/-- Both messages are sent before one is received. -/
def flood : Trace := [⟨⟨0, 0⟩, .post .send 1 0, false⟩, ⟨⟨1, 0⟩, .post .send 1 1, false⟩]

theorem replay_flood_refines_unbounded :
    bottleneck.IsBuilt ∧ bottleneck.unbounded.IsBuilt ∧
      (∃ u, flood.replay bottleneck.unbounded = .ok u ∧ ¬ u.WithinBounds bottleneck) ∧
      (∃ side mailbox capacity,
        flood.replay bottleneck = .error (.overCapacity (.log side mailbox) capacity)) ∧
      ∃ s u, meeting.replay bottleneck = .ok s ∧ meeting.replay bottleneck.unbounded = .ok u ∧
        s.sameProgress u = true := by
  obtain ⟨hunbounded, hruns⟩ := replay_refines_unbounded bottleneck_isBuilt
  obtain ⟨u, hu⟩ : ∃ u, flood.replay bottleneck.unbounded = .ok u := ⟨_, rfl⟩
  have hnot : ¬ u.WithinBounds bottleneck := by
    cases hu
    intro hwithin
    exact absurd (hwithin 1 _ .send 1 rfl rfl) (by decide)
  obtain ⟨-, -, hstopped, -⟩ := hruns flood
  obtain ⟨-, hsame, -, -⟩ := hruns meeting
  obtain ⟨s, hs⟩ : ∃ s, meeting.replay bottleneck = .ok s := ⟨_, rfl⟩
  obtain ⟨v, hv⟩ : ∃ v, meeting.replay bottleneck.unbounded = .ok v := ⟨_, rfl⟩
  exact ⟨bottleneck_isBuilt, hunbounded, ⟨u, hu, hnot⟩, hstopped u hu hnot, s, v, hs, hv,
    (hsame s v hs hv).1⟩

end State

end Interleaving
