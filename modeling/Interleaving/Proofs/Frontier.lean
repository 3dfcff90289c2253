import Interleaving.Proofs.Step

/-!
# The frontier

Two things say which transitions may fire: the listing `State.enabled`, and the
look-up that `State.execute` does for itself.  In a sound and placed state they
agree, whatever the marks and logs.  A step with the label of a listed transition
fires that transition (`State.Fires`) or finds its log full (`State.Overfills`);
with any other label it fails before it looks at a mailbox.
-/

namespace Interleaving

namespace Actor

/-- What a placed actor goes on with stands at its position and is not executed. -/
theorem IsPlaced.of_next? {a : Actor} (h : a.IsPlaced) {t : Transition} (ht : a.next? = some t) :
    a.transitions[t.position]? = some t ∧ t.owner = a.id ∧ t.executed = false := by
  obtain ⟨index, hindex⟩ := List.mem_iff_getElem?.1 (List.mem_of_find?_eq_some ht)
  obtain ⟨hposition, howner⟩ := h index t hindex
  have hexecuted := List.find?_some ht
  exact ⟨hposition ▸ hindex, howner, by simpa using hexecuted⟩

theorem markExecuted_eq_set {a : Actor} {t : Transition} {index : Nat}
    (h : a.transitions[index]? = some t) :
    a.markExecuted index =
      { a with transitions := a.transitions.set index { t with executed := true } } := by
  unfold markExecuted
  rw [List.modify_eq_set_getElem?, h]
  rfl

instance (a : Actor) : Decidable a.IsPlaced :=
  decidable_of_iff (∀ index : Fin a.transitions.length,
      a.transitions[index].position = index ∧ a.transitions[index].owner = a.id) <| by
    constructor
    · intro h index t ht
      obtain ⟨hlt, rfl⟩ := List.getElem?_eq_some_iff.1 ht
      exact h ⟨index, hlt⟩
    · intro h index
      exact h index _ (List.getElem?_eq_getElem index.isLt)

end Actor

namespace State

variable {s s' : State}

instance (s : State) : Decidable s.IsPlaced :=
  decidable_of_iff (∀ entry ∈ s.actors.entries, entry.2.IsPlaced) <| by
    constructor
    · intro h id a ha
      exact h (id, a) ((Table.mem_entries_iff s.actors id a).2 ha)
    · intro h entry hentry
      exact h entry.1 entry.2 ((Table.mem_entries_iff s.actors entry.1 entry.2).1 hentry)

/-! ### The listing -/

section Listing

variable (hsound : s.IsSound) (hplaced : s.IsPlaced)
include hsound hplaced

theorem owner_of_offer? {id : ActorId} {a : Actor} {t : Transition}
    (ha : s.actors.get? id = some a) (ht : s.offer? a = some t) : t.owner = id := by
  obtain ⟨-, howner, -⟩ := (hplaced id a ha).of_next? (offer?_eq_some_iff.1 ht).1
  rw [howner, hsound.actor_id ha]

/-- Different actors offer transitions with different labels. -/
theorem nodup_labels_of_offers :
    ((s.actors.values.filterMap s.offer?).map Transition.label).Nodup := by
  unfold List.Nodup Table.values
  rw [List.pairwise_map, List.filterMap_map, List.pairwise_filterMap]
  refine s.actors.ascending.imp_of_mem ?_
  intro (id, a) (id', a') hmem hmem' hlt t ht t' ht' heq
  rw [Table.mem_entries_iff] at hmem hmem'
  have howner : t.owner = t'.owner := congrArg Label.owner heq
  rw [owner_of_offer? hsound hplaced hmem ht, owner_of_offer? hsound hplaced hmem' ht'] at howner
  subst howner
  simp at hlt

/-- The enabled transitions are those that the actors offer. -/
theorem mem_enabled_iff {t : Transition} :
    t ∈ s.enabled ↔ ∃ a, s.actors.get? t.owner = some a ∧ s.offer? a = some t := by
  unfold enabled
  rw [mem_ascendingBy_iff (List.inj_on_of_nodup_map (nodup_labels_of_offers hsound hplaced)),
    List.mem_filterMap]
  constructor
  · rintro ⟨a, ha, ht⟩
    obtain ⟨id, hid⟩ := (Table.mem_values_iff s.actors a).1 ha
    rw [← owner_of_offer? hsound hplaced hid ht] at hid
    exact ⟨a, hid, ht⟩
  · rintro ⟨a, ha, ht⟩
    exact ⟨a, (Table.mem_values_iff s.actors a).2 ⟨_, ha⟩, ht⟩

theorem eq_of_mem_enabled {t u : Transition} (ht : t ∈ s.enabled) (hu : u ∈ s.enabled)
    (howner : t.owner = u.owner) : t = u := by
  obtain ⟨a, ha, hoffer⟩ := (mem_enabled_iff hsound hplaced).1 ht
  obtain ⟨b, hb, hoffer'⟩ := (mem_enabled_iff hsound hplaced).1 hu
  rw [howner, hb, Option.some.injEq] at ha
  subst ha
  rw [hoffer', Option.some.injEq] at hoffer
  exact hoffer.symm

theorem nodup_owners_of_enabled : (s.enabled.map (·.owner)).Nodup := by
  unfold List.Nodup
  rw [List.pairwise_map]
  have hascending : Ascending Transition.label s.enabled := ascending_ascendingBy _
  refine hascending.imp_of_mem ?_
  intro t u ht hu hlt howner
  rw [eq_of_mem_enabled hsound hplaced ht hu howner] at hlt
  simp at hlt

/-- An enabled transition stands in its actor, not executed. -/
theorem get?_of_mem_enabled {t : Transition} (ht : t ∈ s.enabled) :
    ∃ a, s.actors.get? t.owner = some a ∧ s.offer? a = some t ∧
      a.transitions[t.position]? = some t ∧ t.executed = false := by
  obtain ⟨a, ha, hoffer⟩ := (mem_enabled_iff hsound hplaced).1 ht
  obtain ⟨hindex, -, hexecuted⟩ :=
    (hplaced t.owner a ha).of_next? (offer?_eq_some_iff.1 hoffer).1
  exact ⟨a, ha, hoffer, hindex, hexecuted⟩

theorem action?_of_mem_enabled {t : Transition} (ht : t ∈ s.enabled) :
    s.action? t.label = some t.action := by
  obtain ⟨a, ha, -, hindex, -⟩ := get?_of_mem_enabled hsound hplaced ht
  simp only [action?, ha, hindex, Option.bind_some, Option.map_some]

end Listing

/-! ### The step -/

/-- The transition posts to a log that already has as many records as its mailbox
may hold. -/
def Overfills (s : State) (t : Transition) (side : Side) (mailbox : MailboxId)
    (capacity : Nat) : Prop :=
  ∃ comm m, t.action = .post side mailbox comm ∧ s.mailboxes.get? mailbox = some m ∧
    m.capacity = some capacity ∧ capacity ≤ (m.log side).length

/-- From `s` to `s'` the mark of `t` is set, the mailbox that `t` posts to is updated,
and nothing else changes. -/
structure Fires (s : State) (t : Transition) (s' : State) : Prop where
  not_executed : t.executed = false
  actor : ∃ a, s.actors.get? t.owner = some a ∧ a.transitions[t.position]? = some t ∧
    s'.actors.get? t.owner =
      some { a with transitions := a.transitions.set t.position { t with executed := true } }
  other_actors : ∀ id, id ≠ t.owner → s'.actors.get? id = s.actors.get? id
  mailbox : ∀ side mailbox comm, t.action = .post side mailbox comm →
    ∃ m m', s.mailboxes.get? mailbox = some m ∧ m.update t = .ok m' ∧
      s'.mailboxes.get? mailbox = some m'
  other_mailboxes : ∀ id, (∀ side comm, t.action ≠ .post side id comm) →
    s'.mailboxes.get? id = s.mailboxes.get? id

section Step

variable (hsound : s.IsSound) (hplaced : s.IsPlaced)
include hsound

/-- A transition of an actor can be delivered unless it posts to a full log. -/
theorem deliver_eq_error_iff {id : ActorId} {a : Actor} {t : Transition}
    (ha : s.actors.get? id = some a) (ht : t ∈ a.transitions) {error : ModelError} :
    s.deliver t = .error error ↔ ∃ side mailbox capacity,
      s.Overfills t side mailbox capacity ∧ error = .overCapacity (.log side mailbox) capacity := by
  by_cases hpost : ∃ side mailbox comm, t.action = .post side mailbox comm
  · obtain ⟨side, mailbox, comm, haction⟩ := hpost
    have hnamed := Action.mailbox?_eq_some_iff.2 (.inl ⟨side, comm, haction⟩)
    obtain ⟨m, hm⟩ := hsound.named ha ht hnamed
    have hid := hsound.mailbox_id hm
    rw [deliver_of_post haction hm, map_eq_error_iff, Mailbox.update_of_post (hid ▸ haction),
      Mailbox.post_eq_error_iff, hid]
    constructor
    · rintro ⟨capacity, hcapacity, hfull, rfl⟩
      exact ⟨side, mailbox, capacity, ⟨comm, m, haction, hm, hcapacity, hfull⟩, rfl⟩
    · -- The transition posts to one log only, so this is the full one.
      rintro ⟨side', mailbox', capacity, ⟨comm', m', haction', hm', hcapacity, hfull⟩, rfl⟩
      rw [haction, Action.post.injEq] at haction'
      obtain ⟨rfl, rfl, -⟩ := haction'
      rw [hm, Option.some.injEq] at hm'
      subst hm'
      exact ⟨capacity, hcapacity, hfull, rfl⟩
  · rw [deliver_of_not_post fun side mailbox comm haction => hpost ⟨side, mailbox, comm, haction⟩]
    constructor
    · intro h
      cases h
    · rintro ⟨side, mailbox, capacity, ⟨comm, m, haction, -⟩, -⟩
      exact absurd ⟨side, mailbox, comm, haction⟩ hpost

include hplaced

theorem execute_of_mem_enabled {t : Transition} (ht : t ∈ s.enabled) :
    ∃ a, s.actors.get? t.owner = some a ∧ a.transitions[t.position]? = some t ∧
      t.executed = false ∧ s.execute t.label = (s.deliver t).map fun mailboxes =>
        ⟨s.actors.insert t.owner (a.markExecuted t.position), mailboxes⟩ := by
  obtain ⟨a, ha, hoffer, hindex, hexecuted⟩ := get?_of_mem_enabled hsound hplaced ht
  exact ⟨a, ha, hindex, hexecuted, execute_of_offer? ha hoffer rfl⟩

theorem execute_of_not_enabled {l : Label} {a : Actor} (ha : s.actors.get? l.owner = some a)
    (hnot : ∀ t ∈ s.enabled, t.label ≠ l) : s.execute l = .error (.notEnabled l) := by
  refine execute_of_not_offered ha fun t hoffer hposition => ?_
  have howner := owner_of_offer? hsound hplaced ha hoffer
  have hmem : t ∈ s.enabled := (mem_enabled_iff hsound hplaced).2 ⟨a, howner ▸ ha, hoffer⟩
  exact hnot t hmem (Label.ext hposition howner)

/-- The only obstacle for an enabled transition is a full log. -/
theorem execute_eq_error_iff {t : Transition} (ht : t ∈ s.enabled) {error : ModelError} :
    s.execute t.label = .error error ↔ ∃ side mailbox capacity,
      s.Overfills t side mailbox capacity ∧ error = .overCapacity (.log side mailbox) capacity := by
  obtain ⟨a, ha, hindex, -, hexecute⟩ := execute_of_mem_enabled hsound hplaced ht
  rw [hexecute, map_eq_error_iff, deliver_eq_error_iff hsound ha (List.mem_of_getElem? hindex)]

theorem exists_execute_of_not_overfills {t : Transition} (ht : t ∈ s.enabled)
    (hnot : ¬ ∃ side mailbox capacity, s.Overfills t side mailbox capacity) :
    ∃ s', s.execute t.label = .ok s' := by
  cases h : s.execute t.label with
  | ok s' => exact ⟨s', rfl⟩
  | error error =>
      obtain ⟨side, mailbox, capacity, hfull, -⟩ := (execute_eq_error_iff hsound hplaced ht).1 h
      exact absurd ⟨side, mailbox, capacity, hfull⟩ hnot

theorem execute_eq_unknownActor_iff {l : Label} :
    s.execute l = .error (.unknownActor l.owner) ↔ s.actors.get? l.owner = none := by
  refine ⟨fun h => ?_, execute_of_get?_eq_none⟩
  cases ha : s.actors.get? l.owner with
  | none => rfl
  | some a =>
      by_cases hlisted : ∃ t ∈ s.enabled, t.label = l
      · obtain ⟨t, ht, rfl⟩ := hlisted
        obtain ⟨side, mailbox, capacity, -, heq⟩ :=
          (execute_eq_error_iff hsound hplaced ht).1 h
        cases heq
      · push Not at hlisted
        rw [execute_of_not_enabled hsound hplaced ha hlisted] at h
        cases h

theorem execute_eq_notEnabled_iff {l : Label} :
    s.execute l = .error (.notEnabled l) ↔
      (∃ a, s.actors.get? l.owner = some a) ∧ ∀ t ∈ s.enabled, t.label ≠ l := by
  constructor
  · intro h
    constructor
    · cases ha : s.actors.get? l.owner with
      | some a => exact ⟨a, rfl⟩
      | none =>
          rw [execute_of_get?_eq_none ha] at h
          cases h
    · rintro t ht rfl
      obtain ⟨side, mailbox, capacity, -, heq⟩ := (execute_eq_error_iff hsound hplaced ht).1 h
      cases heq
  · rintro ⟨⟨a, ha⟩, hnot⟩
    exact execute_of_not_enabled hsound hplaced ha hnot

theorem fires_of_execute {t : Transition} (ht : t ∈ s.enabled)
    (h : s.execute t.label = .ok s') : s.Fires t s' := by
  obtain ⟨a, ha, hindex, hexecuted, hexecute⟩ := execute_of_mem_enabled hsound hplaced ht
  rw [hexecute] at h
  obtain ⟨mailboxes, hdeliver, rfl⟩ := map_eq_ok_iff.1 h
  refine ⟨hexecuted, ⟨a, ha, hindex, ?_⟩, fun id hid => ?_, ?_, fun id hnot => ?_⟩
  · show (s.actors.insert t.owner (a.markExecuted t.position)).get? t.owner = _
    rw [Table.get?_insert_self, Actor.markExecuted_eq_set hindex]
  · exact Table.get?_insert_of_ne _ _ hid
  · intro side mailbox comm haction
    rcases get?_of_deliver hdeliver mailbox with
      ⟨-, -, m, m', -, hm, hupdate, hm'⟩ | ⟨hnot, -⟩
    · exact ⟨m, m', hm, hupdate, hm'⟩
    · exact absurd haction (hnot side comm)
  · rcases get?_of_deliver hdeliver id with ⟨side, comm, -, -, haction, -⟩ | ⟨-, hsame⟩
    · exact absurd haction (hnot side comm)
    · exact hsame

/-- A step that succeeds fires the enabled transition with its label. -/
theorem exists_fires_of_execute {l : Label} (h : s.execute l = .ok s') :
    ∃ t ∈ s.enabled, t.label = l ∧ s.Fires t s' := by
  obtain ⟨a, t, -, ha, hoffer, hposition, -, -⟩ := execute_eq_ok_iff.1 h
  have howner := owner_of_offer? hsound hplaced ha hoffer
  have hlabel : t.label = l := Label.ext hposition howner
  have ht : t ∈ s.enabled := (mem_enabled_iff hsound hplaced).2 ⟨a, howner ▸ ha, hoffer⟩
  exact ⟨t, ht, hlabel, fires_of_execute hsound hplaced ht (hlabel ▸ h)⟩

end Step

/-- **The listing decides the step.**  In a placed state, which every built state and
every successor of a placed state is, at most one transition of each owner and of each
actor is enabled.  A step fails at an unknown owner, at a label that is not enabled, and
otherwise only at a full log; if it succeeds it fires the enabled transition with its
label. -/
theorem execute_decided_by_enabled :
    ((∀ s : State, s.IsBuilt → s.IsPlaced) ∧
      ∀ (s s' : State) (l : Label), s.IsPlaced → s.execute l = .ok s' → s'.IsPlaced) ∧
    ∀ s : State, s.IsObtained → s.IsPlaced →
      ((s.enabled.map (·.owner)).Nodup ∧
        ∀ (id : ActorId) (a : Actor), s.actors.get? id = some a →
          ∀ t ∈ s.enabled, ∀ u ∈ s.enabled, t ∈ a.transitions → u ∈ a.transitions → t = u) ∧
      ∀ t : Transition,
        (s.execute t.label = .error (.unknownActor t.owner) ↔ s.actors.get? t.owner = none) ∧
        (s.execute t.label = .error (.notEnabled t.label) ↔
          (∃ a, s.actors.get? t.owner = some a) ∧ ∀ e ∈ s.enabled, e.label ≠ t.label) ∧
        ∀ e ∈ s.enabled, e.label = t.label →
          (∀ error, s.execute t.label = .error error ↔ ∃ side mailbox capacity,
            s.Overfills e side mailbox capacity ∧
              error = .overCapacity (.log side mailbox) capacity) ∧
          ((¬ ∃ side mailbox capacity, s.Overfills e side mailbox capacity) →
            ∃ s', s.execute t.label = .ok s') ∧
          ∀ s', s.execute t.label = .ok s' → s.Fires e s' := by
  refine ⟨⟨fun s h => h.isInitial.isPlaced, fun s s' l hs h => hs.execute h⟩, ?_⟩
  intro s hobtained hplaced
  have hsound := hobtained.isSound
  refine ⟨⟨nodup_owners_of_enabled hsound hplaced, ?_⟩, fun t => ⟨?_, ?_, ?_⟩⟩
  · intro id a ha t ht u hu hta hua
    refine eq_of_mem_enabled hsound hplaced ht hu ?_
    rw [(hplaced id a ha).owner_eq hta, (hplaced id a ha).owner_eq hua]
  · exact execute_eq_unknownActor_iff hsound hplaced
  · exact execute_eq_notEnabled_iff hsound hplaced
  · intro e he hlabel
    rw [← hlabel]
    refine ⟨fun error => execute_eq_error_iff hsound hplaced he, fun hnot => ?_, fun s' h => ?_⟩
    · exact exists_execute_of_not_overfills hsound hplaced he hnot
    · exact fires_of_execute hsound hplaced he h

/-- An actor that has executed its second transition before its first one, and a
mailbox with a log beyond its capacity. -/
def jumbled : State :=
  ofParts
    [⟨3, [⟨⟨0, 3⟩, .lock 0, false⟩, ⟨⟨1, 3⟩, .post .send 1 0, true⟩]⟩,
      ⟨4, [⟨⟨0, 4⟩, .post .receive 1 0, false⟩]⟩]
    [⟨1, [⟨3, 0, .pending⟩], [⟨9, 9, .pending⟩, ⟨9, 8, .pending⟩], some 1⟩]

theorem execute_jumbled_decided :
    (rendezvous.IsBuilt ∧ ∃ s', rendezvous.execute ⟨0, 0⟩ = .ok s' ∧ s'.IsPlaced) ∧
      jumbled.IsObtained ∧ jumbled.IsPlaced ∧
      jumbled.execute ⟨0, 7⟩ = .error (.unknownActor 7) ∧
      jumbled.execute ⟨1, 3⟩ = .error (.notEnabled ⟨1, 3⟩) ∧
      jumbled.execute ⟨0, 4⟩ = .error (.overCapacity (.log .receive 1) 1) ∧
      ∃ s', jumbled.execute ⟨0, 3⟩ = .ok s' ∧ jumbled.Fires ⟨⟨0, 3⟩, .lock 0, false⟩ s' := by
  obtain ⟨⟨hbuilt, hstep⟩, hdecided⟩ := execute_decided_by_enabled
  have hload : ofTables jumbled.actors jumbled.mailboxes = .ok jumbled := by decide
  have hobtained : jumbled.IsObtained := .loaded hload
  have hplaced : jumbled.IsPlaced := by decide
  obtain ⟨-, hlabels⟩ := hdecided jumbled hobtained hplaced
  have hlock : (⟨⟨0, 3⟩, .lock 0, false⟩ : Transition) ∈ jumbled.enabled := by decide
  have hreceive : (⟨⟨0, 4⟩, .post .receive 1 0, false⟩ : Transition) ∈ jumbled.enabled := by
    decide
  have hstranger := (hlabels ⟨⟨0, 7⟩, .mutexTest, true⟩).1.2 rfl
  have hheld := (hlabels ⟨⟨1, 3⟩, .mutexTest, true⟩).2.1.2 ⟨⟨_, rfl⟩, by decide⟩
  have hfull := ((hlabels ⟨⟨0, 4⟩, .mutexTest, true⟩).2.2 _ hreceive rfl).1
  obtain ⟨-, hok, hfires⟩ := (hlabels ⟨⟨0, 3⟩, .mutexTest, true⟩).2.2 _ hlock rfl
  obtain ⟨s', hs'⟩ := hok (by
    rintro ⟨_, _, _, _, _, haction, -⟩
    cases haction)
  refine ⟨⟨rendezvous_isBuilt, ?_⟩, hobtained, hplaced, hstranger, hheld, ?_, s', hs', ?_⟩
  · exact ⟨_, rfl, hstep rendezvous _ ⟨0, 0⟩ (hbuilt rendezvous rendezvous_isBuilt) rfl⟩
  · exact (hfull _).2 ⟨.receive, 1, 1, ⟨0, _, rfl, rfl, rfl, by decide⟩, rfl⟩
  · exact hfires s' hs'

end State

end Interleaving
