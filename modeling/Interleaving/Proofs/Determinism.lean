import Interleaving.Proofs.Commutation
import Interleaving.Proofs.Enumeration

/-!
# Determinism without races

If the posts on each side of each mailbox come from one actor, no step takes anything away
from another actor: two different steps that are possible in a state can follow each other in
both orders and lead to one state (`State.IsReachable.diamond`).  A step that is possible can
therefore be moved to the front of every run that cannot be extended, which makes all such
runs equally long and lets them end in one state.
-/

namespace Interleaving

namespace Transition

/-- Posts to one log are the communications that conflict. -/
theorem shareLog_iff {t u : Transition} :
    t.ShareLog u ↔ t.action.isCommunication = true ∧ t.action.conflicts u.action = true := by
  constructor
  · rintro ⟨side, mailbox, comm, comm', hpost, hpost'⟩
    simp [hpost, hpost', Action.isCommunication, Action.conflicts]
  · rintro ⟨hpost, hconflicts⟩
    unfold ShareLog
    cases ht : t.action <;> cases hu : u.action <;>
      simp_all [Action.isCommunication, Action.conflicts]

instance (t u : Transition) : Decidable (t.ShareLog u) := decidable_of_iff _ shareLog_iff.symm

end Transition

namespace State

variable {s s₁ s₂ z : State} {past : List Label} {l l' : Label}

/-- All sends to one mailbox belong to one actor, and so do all receives. -/
def IsRaceFree (s : State) : Prop :=
  ∀ (l l' : Label) (side : Side) (mailbox : MailboxId) (comm comm' : CommId),
    s.action? l = some (.post side mailbox comm) → s.action? l' = some (.post side mailbox comm') →
    l.owner = l'.owner

/-- No transition can be fired, be it that nothing is enabled or that all logs are full. -/
def IsFinal (s : State) : Prop := ∀ l s', s.execute l ≠ .ok s'

instance (s : State) : Decidable s.IsRaceFree :=
  decidable_of_iff (∀ entry ∈ s.actors.entries, ∀ entry' ∈ s.actors.entries,
      ∀ t ∈ entry.2.transitions, ∀ u ∈ entry'.2.transitions,
        t.ShareLog u → entry.1 = entry'.1) <| by
    constructor
    · intro h l l' side mailbox comm comm' haction haction'
      obtain ⟨a, t, ha, ht, hpost⟩ := action?_eq_some_iff.1 haction
      obtain ⟨a', u, ha', hu, hpost'⟩ := action?_eq_some_iff.1 haction'
      exact h (l.owner, a) ((Table.mem_entries_iff ..).2 ha) (l'.owner, a')
        ((Table.mem_entries_iff ..).2 ha') t (List.mem_of_getElem? ht) u (List.mem_of_getElem? hu)
        ⟨side, mailbox, comm, comm', hpost, hpost'⟩
    · rintro h ⟨id, a⟩ ha ⟨id', a'⟩ ha' t ht u hu ⟨side, mailbox, comm, comm', hpost, hpost'⟩
      obtain ⟨l, rfl, haction⟩ := exists_label_of_mem ((Table.mem_entries_iff ..).1 ha) ht
      obtain ⟨l', rfl, haction'⟩ := exists_label_of_mem ((Table.mem_entries_iff ..).1 ha') hu
      rw [hpost] at haction
      rw [hpost'] at haction'
      exact h l l' side mailbox comm comm' haction haction'

theorem isFinal_iff_enabled (hsound : s.IsSound) (hplaced : s.IsPlaced) :
    s.IsFinal ↔ ∀ t ∈ s.enabled, ∀ s', s.execute t.label ≠ .ok s' := by
  constructor
  · exact fun h t _ => h t.label
  · intro h l s' hexecute
    obtain ⟨t, ht, rfl, -⟩ := exists_fires_of_execute hsound hplaced hexecute
    exact h t ht s' hexecute

/-! ### The diamond -/

/-- An actor has one turn at a time. -/
theorem InTurn.eq_of_owner_eq (h : s.InTurn past l) (h' : s.InTurn past l')
    (howner : l.owner = l'.owner) : l = l' := by
  refine Label.ext ?_ howner
  rw [h.position_eq, h'.position_eq, howner]

theorem IsRaceFree.posted?_eq_none (h : s.IsRaceFree) (howner : l.owner ≠ l'.owner)
    (mailbox : MailboxId) (side : Side) :
    s.posted? mailbox side l = none ∨ s.posted? mailbox side l' = none :=
  posted?_eq_none_or fun comm comm' haction haction' =>
    howner (h l l' side mailbox comm comm' haction haction')

theorem IsRaceFree.execute (h : s.IsRaceFree) (hexecute : s.execute l = .ok s₁) :
    s₁.IsRaceFree := by
  intro l₁ l₂ side mailbox comm comm' haction haction'
  rw [action?_of_execute hexecute] at haction haction'
  exact h l₁ l₂ side mailbox comm comm' haction haction'

/-- **One step.**  Two different steps can follow each other in both orders and lead to one
state. -/
theorem IsReachable.diamond (hs : s.IsReachable) (hfree : s.IsRaceFree)
    (hl : s.execute l = .ok s₁) (hl' : s.execute l' = .ok s₂) (hne : l ≠ l') :
    ∃ s₃, s₁.execute l' = .ok s₃ ∧ s₂.execute l = .ok s₃ := by
  obtain ⟨s₀, w, hbuilt, hreplay⟩ := hs
  have hinitial := hbuilt.isInitial
  have hfree₀ : s₀.IsRaceFree := by
    unfold IsRaceFree at hfree ⊢
    rwa [action?_of_replay hreplay] at hfree
  obtain ⟨-, rfl⟩ := hinitial.replay_eq_ok_iff.1 hreplay
  obtain ⟨hadmissible, rfl⟩ := hinitial.execute_after_eq_ok_iff.1 hl
  obtain ⟨hadmissible', rfl⟩ := hinitial.execute_after_eq_ok_iff.1 hl'
  have howner : l.owner ≠ l'.owner := fun heq =>
    hne (hadmissible.inTurn.eq_of_owner_eq hadmissible'.inTurn heq)
  have hposted := hfree₀.posted?_eq_none howner
  have hposted' := hfree₀.posted?_eq_none howner.symm
  refine ⟨_, hinitial.execute_after_of_admissible (hadmissible'.append howner hposted), ?_⟩
  rw [hinitial.execute_after_of_admissible (hadmissible.append howner.symm hposted'),
    after_swap howner hposted]

/-! ### Runs that cannot be extended -/

/-- A possible step can be moved to the front of a run that cannot be extended. -/
theorem exists_run_after (hs : s.IsReachable) (hfree : s.IsRaceFree)
    (hl : s.execute l = .ok s₁) {w : Trace} (hw : w.replay s = .ok z) (hz : z.IsFinal) :
    ∃ v : Trace, v.replay s₁ = .ok z ∧ w.length = v.length + 1 := by
  -- Induction on the run: its first step is the one in question or forms a diamond with it.
  induction w generalizing s s₁ with
  | nil =>
      cases hw
      exact absurd hl (hz l s₁)
  | cons t rest ih =>
      obtain ⟨next, hnext, hrest⟩ := Trace.replay_cons_eq_ok_iff.1 hw
      by_cases heq : l = t.label
      · subst heq
        rw [hl, Except.ok.injEq] at hnext
        subst hnext
        exact ⟨rest, hrest, rfl⟩
      · obtain ⟨s₃, hs₃, hs₃'⟩ := hs.diamond hfree hl hnext heq
        obtain ⟨v, hv, hlength⟩ := ih (hs.execute hnext) (hfree.execute hnext) hs₃' hrest
        refine ⟨t :: v, Trace.replay_cons_eq_ok_iff.2 ⟨s₃, hs₃, hv⟩, ?_⟩
        rw [List.length_cons, List.length_cons, hlength]

/-- Runs that cannot be extended are equally long and end in one state. -/
theorem final_eq_of_replay (hs : s.IsReachable) (hfree : s.IsRaceFree) {w w' : Trace}
    {z' : State} (hw : w.replay s = .ok z) (hw' : w'.replay s = .ok z') (hz : z.IsFinal)
    (hz' : z'.IsFinal) : w.length = w'.length ∧ z = z' := by
  induction w' generalizing s w with
  | nil =>
      cases hw'
      cases w with
      | nil =>
          cases hw
          exact ⟨rfl, rfl⟩
      | cons t rest =>
          obtain ⟨next, hnext, -⟩ := Trace.replay_cons_eq_ok_iff.1 hw
          exact absurd hnext (hz' t.label next)
  | cons t rest ih =>
      obtain ⟨next, hnext, hrest⟩ := Trace.replay_cons_eq_ok_iff.1 hw'
      obtain ⟨v, hv, hlength⟩ := exists_run_after hs hfree hnext hw hz
      obtain ⟨hrest_length, rfl⟩ := ih (hs.execute hnext) (hfree.execute hnext) hv hrest
      rw [hlength, hrest_length, List.length_cons]
      exact ⟨rfl, rfl⟩

/-- **Without races the end is determined.**  If all sends to each mailbox belong to one actor
and all receives too, the runs from a built state that cannot be extended are equally long and
end in one state; so all complete runs that an exploration finds end in one state. -/
theorem final_runs_agree {s₀ : State} (hbuilt : s₀.IsBuilt) (hfree : s₀.IsRaceFree) :
    (∀ (w w' : Trace) (s s' : State), w.replay s₀ = .ok s → w'.replay s₀ = .ok s' →
      s.IsFinal → s'.IsFinal → w.length = w'.length ∧ s = s') ∧
    ∀ run ∈ completeRuns s₀, ∀ run' ∈ completeRuns s₀, run.final = run'.final := by
  have hreachable : s₀.IsReachable := ⟨s₀, [], hbuilt, rfl⟩
  have hagree : ∀ (w w' : Trace) (s s' : State), w.replay s₀ = .ok s → w'.replay s₀ = .ok s' →
      s.IsFinal → s'.IsFinal → w.length = w'.length ∧ s = s' :=
    fun w w' s s' hw hw' hs hs' => final_eq_of_replay hreachable hfree hw hw' hs hs'
  have hfound : ∀ run ∈ completeRuns s₀,
      run.trace.replay s₀ = .ok run.final ∧ run.final.IsFinal := by
    intro run hrun
    obtain ⟨hreplay, hterminal⟩ :=
      replay_of_mem_completeRuns hreachable.isSound hreachable.isPlaced run hrun
    refine ⟨hreplay, (isFinal_iff_enabled (hreachable.isSound.replay hreplay)
      (hreachable.isPlaced.replay hreplay)).2 fun t ht => ?_⟩
    rw [isTerminal_iff.1 hterminal] at ht
    cases ht
  refine ⟨hagree, fun run hrun run' hrun' => ?_⟩
  obtain ⟨hreplay, hfinal⟩ := hfound run hrun
  obtain ⟨hreplay', hfinal'⟩ := hfound run' hrun'
  exact (hagree _ _ _ _ hreplay hreplay' hfinal hfinal').2

/-- A sender of two messages to a mailbox for one, a receiver that writes down the first, and a
reader of what is written. -/
def bottleneck : State :=
  ofParts
    [Actor.ofActions 0 [.post .send 1 0, .post .send 1 1],
      Actor.ofActions 1 [.post .receive 1 0, .wait 1 0, .access 0 .write],
      Actor.ofActions 2 [.access 0 .read]]
    [Mailbox.fresh 1 (some 1)]

theorem bottleneck_isBuilt : bottleneck.IsBuilt :=
  .inr ⟨3, [(0, [.post .send 1 0, .post .send 1 1]),
    (1, [.post .receive 1 0, .wait 1 0, .access 0 .write]), (2, [.access 0 .read])],
    [(1, some 1)], rfl⟩

/-- The reader comes last. -/
def readLast : Trace :=
  [⟨⟨0, 0⟩, .post .send 1 0, false⟩, ⟨⟨0, 1⟩, .post .receive 1 0, false⟩,
    ⟨⟨1, 1⟩, .wait 1 0, false⟩, ⟨⟨2, 1⟩, .access 0 .write, false⟩, ⟨⟨0, 2⟩, .access 0 .read, false⟩]

/-- The reader comes first, and the receiver before the sender. -/
def readFirst : Trace :=
  [⟨⟨0, 2⟩, .access 0 .read, false⟩, ⟨⟨0, 1⟩, .post .receive 1 0, false⟩,
    ⟨⟨0, 0⟩, .post .send 1 0, false⟩, ⟨⟨1, 1⟩, .wait 1 0, false⟩, ⟨⟨2, 1⟩, .access 0 .write, false⟩]

/-- Both runs end with the second message held back by the full log. -/
theorem final_runs_agree_in_bottleneck :
    bottleneck.IsBuilt ∧ bottleneck.IsRaceFree ∧
      readLast.replay bottleneck = .ok (bottleneck.after readLast.labels) ∧
      readFirst.replay bottleneck = .ok (bottleneck.after readFirst.labels) ∧
      (bottleneck.after readLast.labels).IsFinal ∧
      (bottleneck.after readLast.labels).isTerminal = false ∧
      bottleneck.after readLast.labels = bottleneck.after readFirst.labels := by
  have hfree : bottleneck.IsRaceFree := by decide
  have hblocked : ∀ s : State, s.IsReachable →
      s.enabled = [⟨⟨1, 0⟩, .post .send 1 1, false⟩] →
      s.execute ⟨1, 0⟩ = .error (.overCapacity (.log .send 1) 1) → s.IsFinal := by
    intro s hs henabled hfull
    refine (isFinal_iff_enabled hs.isSound hs.isPlaced).2 fun t ht s' hexecute => ?_
    rw [henabled, List.mem_singleton] at ht
    subst ht
    rw [hfull] at hexecute
    cases hexecute
  have hlast : readLast.replay bottleneck = .ok (bottleneck.after readLast.labels) := by decide
  have hfirst : readFirst.replay bottleneck = .ok (bottleneck.after readFirst.labels) := by decide
  have hfinal := hblocked _ ⟨_, _, bottleneck_isBuilt, hlast⟩ (by decide) (by decide)
  have hfinal' := hblocked _ ⟨_, _, bottleneck_isBuilt, hfirst⟩ (by decide) (by decide)
  refine ⟨bottleneck_isBuilt, hfree, hlast, hfirst, hfinal, by decide, ?_⟩
  exact ((final_runs_agree bottleneck_isBuilt hfree).1 _ _ _ _ hlast hfirst hfinal hfinal').2

end State

end Interleaving
