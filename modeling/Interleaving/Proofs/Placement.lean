import Interleaving.Proofs.Budget
import Interleaving.Proofs.Serial.RoundTrip

/-!
# What a snapshot has to bring along

The checks of a snapshot look at keys and at the mailboxes that are named.  They look neither
at the labels of the transitions nor at their marks, so a text may hold a state whose
transitions stand anywhere (`State.astray`).  Steps keep what a text brings along: if in the
loaded state the transitions stand where their labels say and the executed ones come first,
then so they do in every state that a run reaches, each step fires an enabled transition and
executes one more, and no run is longer than there are transitions
(`State.loaded_conforms_iff`).
-/

namespace Interleaving

/-! ### Executed transitions come first -/

namespace Actor

/-- The executed transitions are the first ones. -/
def IsOrderly (a : Actor) : Prop := a.executed <+: a.transitions

instance (a : Actor) : Decidable a.IsOrderly :=
  inferInstanceAs (Decidable (a.executed <+: a.transitions))

theorem isOrderly_iff {a : Actor} : a.IsOrderly ↔ ∃ done left, a.transitions = done ++ left ∧
    (∀ t ∈ done, t.executed = true) ∧ ∀ t ∈ left, t.executed = false := by
  constructor
  · rintro ⟨left, hsplit⟩
    refine ⟨a.executed, left, hsplit.symm, fun t ht => (List.mem_filter.1 ht).2, fun t ht => ?_⟩
    -- All executed transitions stand before `left`, so none of them is left.
    have hleft : left.filter (·.executed) = [] := by
      have hfilter : a.executed.filter (·.executed) ++ left.filter (·.executed) = a.executed := by
        rw [← List.filter_append, hsplit]
        rfl
      have hself : a.executed.filter (·.executed) = a.executed := by
        unfold executed
        rw [List.filter_filter]
        simp
      rw [hself] at hfilter
      exact List.append_right_eq_self.1 hfilter
    simpa using List.filter_eq_nil_iff.1 hleft t ht
  · rintro ⟨done, left, hsplit, hdone, hleft⟩
    refine ⟨left, ?_⟩
    have hexecuted : a.executed = done := by
      unfold executed
      rw [hsplit, List.filter_append, List.filter_eq_self.2 hdone,
        List.filter_eq_nil_iff.2 fun t ht => by simp [hleft t ht], List.append_nil]
    rw [hexecuted, hsplit]

theorem isOrderly_ofActions (id : ActorId) (actions : List Action) :
    (ofActions id actions).IsOrderly := by
  refine isOrderly_iff.2 ⟨[], (ofActions id actions).transitions, rfl,
    fun t ht => absurd ht List.not_mem_nil, fun t ht => ?_⟩
  obtain ⟨index, hindex⟩ := List.mem_iff_getElem?.1 ht
  rw [getElem?_transitions_ofActions] at hindex
  obtain ⟨action, -, rfl⟩ := Option.map_eq_some_iff.1 hindex
  rfl

/-- An actor in order goes on with the first transition that is left. -/
theorem IsOrderly.markExecuted {a : Actor} (h : a.IsOrderly) (hplaced : a.IsPlaced)
    {t : Transition} (hnext : a.next? = some t) : (a.markExecuted t.position).IsOrderly := by
  obtain ⟨done, left, hsplit, hdone, hleft⟩ := isOrderly_iff.1 h
  have hfirst : left.find? (fun t => !t.executed) = some t := by
    have hnone : done.find? (fun t => !t.executed) = none :=
      List.find?_eq_none.2 fun u hu => by simp [hdone u hu]
    rw [next?, hsplit, List.find?_append, hnone] at hnext
    exact hnext
  obtain ⟨rest, rfl⟩ : ∃ rest, left = t :: rest := by
    cases left with
    | nil => cases hfirst
    | cons u rest =>
        rw [List.find?_cons_of_pos (by simp [hleft u List.mem_cons_self])] at hfirst
        cases hfirst
        exact ⟨rest, rfl⟩
  have hindex : a.transitions[done.length]? = some t := by simp [hsplit]
  rw [(hplaced _ t hindex).1, markExecuted_eq_set hindex]
  refine isOrderly_iff.2 ⟨done ++ [{ t with executed := true }], rest, ?_, ?_, ?_⟩
  · simp [hsplit]
  · intro u hu
    rcases List.mem_append.1 hu with hu | hu
    · exact hdone u hu
    · rw [List.mem_singleton.1 hu]
  · exact fun u hu => hleft u (List.mem_cons_of_mem _ hu)

theorem length_executed_add_remaining (a : Actor) :
    a.executed.length + a.remaining = a.length := by
  unfold executed remaining length
  rw [List.countP_eq_length_filter]
  exact (List.length_eq_length_filter_add _).symm

theorem length_markExecuted (a : Actor) (index : Nat) : (a.markExecuted index).length = a.length :=
  List.length_modify ..

end Actor

namespace Table

variable {α : Type}

theorem total_add (f g : α → Nat) (t : Table α) :
    t.total (fun x => f x + g x) = t.total f + t.total g := by
  unfold total
  induction t.values with
  | nil => rfl
  | cons x rest ih =>
      simp only [List.foldr_cons, ih]
      omega

end Table

namespace State

variable {s s' : State}

/-- In each actor the executed transitions are the first ones. -/
def IsOrderly (s : State) : Prop :=
  ∀ (id : ActorId) (a : Actor), s.actors.get? id = some a → a.IsOrderly

theorem IsInitial.isOrderly (h : s.IsInitial) : s.IsOrderly := by
  intro id a ha
  obtain ⟨actions, rfl⟩ := h.actor_eq ha
  exact Actor.isOrderly_ofActions id actions

theorem IsOrderly.execute (hs : s.IsOrderly) (hplaced : s.IsPlaced) {l : Label}
    (h : s.execute l = .ok s') : s'.IsOrderly := by
  obtain ⟨a, t, mailboxes, ha, hoffer, hposition, -, rfl⟩ := execute_eq_ok_iff.1 h
  intro id b hb
  rw [Table.get?_insert] at hb
  split at hb
  case isTrue =>
    cases hb
    have hnext := (offer?_eq_some_iff.1 hoffer).1
    exact hposition ▸ (hs l.owner a ha).markExecuted (hplaced l.owner a ha) hnext
  case isFalse => exact hs id b hb

/-! ### Each step executes one more transition -/

theorem length_executed_eq_total (s : State) :
    s.executed.length = s.actors.total fun a => a.executed.length := by
  unfold executed Table.total
  induction s.actors.values with
  | nil => rfl
  | cons a rest ih => rw [List.flatMap_cons, List.length_append, ih, List.foldr_cons]

theorem length_executed_add_remaining (s : State) :
    s.executed.length + s.actors.total Actor.remaining = s.actors.total Actor.length := by
  rw [length_executed_eq_total, ← Table.total_add]
  simp only [Actor.length_executed_add_remaining]

/-- A step makes no actor longer or shorter. -/
theorem total_length_of_execute {l : Label} (h : s.execute l = .ok s') :
    s'.actors.total Actor.length = s.actors.total Actor.length := by
  obtain ⟨a, t, mailboxes, ha, -, -, -, rfl⟩ := execute_eq_ok_iff.1 h
  have htotal := s.actors.total_insert Actor.length (a.markExecuted l.position) ha
  rw [Actor.length_markExecuted] at htotal
  exact Nat.add_right_cancel htotal

theorem length_executed_of_execute (hplaced : s.IsPlaced) {l : Label}
    (h : s.execute l = .ok s') : s'.executed.length = s.executed.length + 1 := by
  have hbefore := s.length_executed_add_remaining
  have hafter := s'.length_executed_add_remaining
  have hremaining := remaining_of_execute hplaced h
  have hlength := total_length_of_execute h
  omega

/-- A run from a placed state executes as many transitions as it has steps. -/
theorem length_executed_of_replay (hplaced : s.IsPlaced) {w : Trace} (h : w.replay s = .ok s') :
    s'.executed.length = s.executed.length + w.length ∧
      s'.actors.total Actor.length = s.actors.total Actor.length := by
  induction w generalizing s with
  | nil =>
      cases h
      exact ⟨rfl, rfl⟩
  | cons t w ih =>
      obtain ⟨next, hnext, hrest⟩ := Trace.replay_cons_eq_ok_iff.1 h
      obtain ⟨hexecuted, hlength⟩ := ih (hplaced.execute hnext) hrest
      have hstep := length_executed_of_execute hplaced hnext
      rw [List.length_cons]
      exact ⟨by omega, hlength.trans (total_length_of_execute hnext)⟩

/-! ### Loaded states -/

/-- **What a text brings along.**  In a state read from a text, and in all states that runs
reach from it, the transitions stand where their labels say and the executed ones come first,
iff they do so in the state itself.  If the transitions stand where their labels say, then
they do so for ever, each step fires an enabled transition and executes one transition more,
and no run is longer than there are transitions left. -/
theorem loaded_conforms_iff {text : String} (h : ofText text = .ok s) :
    ((∀ (w : Trace) (s' : State), w.replay s = .ok s' → s'.IsPlaced ∧ s'.IsOrderly) ↔
      s.IsPlaced ∧ s.IsOrderly) ∧
    (s.IsPlaced → ∀ (w : Trace) (s' : State), w.replay s = .ok s' →
      s'.IsPlaced ∧ s'.executed.length = s.executed.length + w.length ∧
      w.length ≤ s.actors.total Actor.remaining ∧
      ∀ (t : Transition) (next : State), s'.execute t.label = .ok next →
        (∃ u ∈ s'.enabled, u.isSame t = true) ∧
          next.executed.length = s'.executed.length + 1) := by
  have hsound := (isObtained_of_ofText h).isSound
  refine ⟨⟨fun hall => hall [] s rfl, fun hconforms w s' hrun => ?_⟩, fun hplaced w s' hrun => ?_⟩
  · exact replay_induction (motive := fun s => s.IsPlaced ∧ s.IsOrderly)
      (fun hs hstep => ⟨hs.1.execute hstep, hs.2.execute hs.1 hstep⟩) hconforms hrun
  · have hplaced' := hplaced.replay hrun
    obtain ⟨hexecuted, hlength⟩ := length_executed_of_replay hplaced hrun
    have hbefore := s.length_executed_add_remaining
    have hafter := s'.length_executed_add_remaining
    refine ⟨hplaced', hexecuted, by omega, fun t next hstep => ?_⟩
    obtain ⟨u, hu, hlabel, -⟩ :=
      exists_fires_of_execute (hsound.replay hrun) hplaced' hstep
    exact ⟨⟨u, hu, by simpa [Transition.isSame] using hlabel⟩,
      length_executed_of_execute hplaced' hstep⟩

theorem meeting_conforms :
    ofText rendezvous.toText = .ok rendezvous ∧ rendezvous.IsPlaced ∧
      (∃ s, meeting.replay rendezvous = .ok s ∧ s.IsPlaced ∧ s.IsOrderly ∧
        s.executed.length = rendezvous.executed.length + 3 ∧
        3 ≤ rendezvous.actors.total Actor.remaining) ∧
      ∃ next, rendezvous.execute ⟨0, 1⟩ = .ok next ∧
        (∃ u ∈ rendezvous.enabled, u.isSame ⟨⟨0, 1⟩, .mutexTest, true⟩ = true) ∧
        next.executed.length = rendezvous.executed.length + 1 := by
  have hinitial := rendezvous_isBuilt.isInitial
  have htext := hinitial.isSound.ofText_toText (by decide)
  obtain ⟨hconforms, hruns⟩ := loaded_conforms_iff htext
  obtain ⟨s, hrun⟩ : ∃ s, meeting.replay rendezvous = .ok s := ⟨_, rfl⟩
  obtain ⟨next, hnext⟩ : ∃ next, rendezvous.execute ⟨0, 1⟩ = .ok next := ⟨_, rfl⟩
  obtain ⟨hplaced, horderly⟩ := hconforms.2 ⟨hinitial.isPlaced, hinitial.isOrderly⟩ meeting s hrun
  obtain ⟨-, hexecuted, hbound, -⟩ := hruns hinitial.isPlaced meeting s hrun
  obtain ⟨-, -, -, hsteps⟩ := hruns hinitial.isPlaced [] rendezvous rfl
  exact ⟨htext, hinitial.isPlaced, ⟨s, hrun, hplaced, horderly, hexecuted, hbound⟩, next, hnext,
    hsteps ⟨⟨0, 1⟩, .mutexTest, true⟩ next hnext⟩

/-- An actor whose first transition names another owner and an index past the end, while its
second one is executed. -/
def astray : State :=
  ofParts [⟨3, [⟨⟨4, 9⟩, .mutexTest, false⟩, ⟨⟨1, 3⟩, .mutexTest, true⟩]⟩] []

/-- The text of a state that is astray is accepted.  A label that is not enabled can be fired
in it, as often as one likes, and executes nothing. -/
theorem astray_is_loaded :
    ofText astray.toText = .ok astray ∧ ¬ astray.IsPlaced ∧ ¬ astray.IsOrderly ∧
      astray.execute ⟨4, 3⟩ = .ok astray ∧
      (∀ u ∈ astray.enabled, u.isSame ⟨⟨4, 3⟩, .mutexTest, false⟩ = false) ∧
      ∀ n, Trace.replay (List.replicate n ⟨⟨4, 3⟩, .mutexTest, false⟩) astray = .ok astray := by
  have hload : ofTables astray.actors astray.mailboxes = .ok astray := by decide
  have hstep : astray.execute ⟨4, 3⟩ = .ok astray := by decide
  refine ⟨(isSound_of_ofTables hload).ofText_toText (by decide), by decide, fun horderly => ?_,
    hstep, by decide, fun n => ?_⟩
  · exact absurd (horderly 3 _ rfl) (by decide)
  · induction n with
    | zero => rfl
    | succ n ih => exact Trace.replay_cons_eq_ok_iff.2 ⟨astray, hstep, ih⟩

end State

end Interleaving
