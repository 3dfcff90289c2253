import Interleaving.Blueprint
import Interleaving.Proofs.Lookup

/-!
# Built states

`State.IsBuilt` singles out the states that a construction returns: a blueprint,
or a list of actors and a list of empty mailboxes.  Every proof about runs uses
one consequence of it only, `State.IsInitial`: everything is filed under its own
number, nothing has happened yet, and each mailbox that is named exists.

What decides about a blueprint is its list of objections, with a complaint for each
actor that is too long and the problems of the actors that it keeps
(`Blueprint.objections_eq`).
-/

namespace Interleaving

theorem repetitions_eq_nil_iff {seen ns : List Nat} :
    repetitions seen ns = [] ↔ ns.Nodup ∧ ∀ n ∈ ns, n ∉ seen := by
  induction ns generalizing seen with
  | nil => simp [repetitions]
  | cons n rest ih =>
      unfold repetitions
      by_cases hseen : n ∈ seen
      · simp [hseen]
      · rw [if_neg hseen, ih, List.nodup_cons]
        -- What comes later must be neither `n` nor one of those from before.
        simp only [List.mem_cons, not_or, forall_eq_or_imp, hseen, not_false_eq_true, true_and]
        constructor
        · rintro ⟨hnodup, hrest⟩
          exact ⟨⟨fun hmem => (hrest n hmem).1 rfl, hnodup⟩, fun m hm => (hrest m hm).2⟩
        · rintro ⟨⟨hnot, hnodup⟩, hrest⟩
          exact ⟨hnodup, fun m hm => ⟨fun heq => hnot (heq ▸ hm), hrest m hm⟩⟩

/-- A transition of one of these actors names the mailbox. -/
def Names (actors : List Actor) (mailbox : MailboxId) : Prop :=
  ∃ a ∈ actors, ∃ t ∈ a.transitions, t.action.mailbox? = some mailbox

/-- What actors name is what they post to or wait at. -/
theorem names_iff {actors : List Actor} {mailbox : MailboxId} : Names actors mailbox ↔
    ∃ a ∈ actors, ∃ t ∈ a.transitions, (∃ side comm, t.action = .post side mailbox comm) ∨
      ∃ comm, t.action = .wait mailbox comm := by
  simp only [Names, Action.mailbox?_eq_some_iff]

/-- A mailbox is missing iff it is named and not listed. -/
theorem mem_missingMailboxes_iff {actors : List Actor} {mailboxes : List Mailbox}
    {mailbox : MailboxId} : mailbox ∈ missingMailboxes actors mailboxes ↔
      Names actors mailbox ∧ mailbox ∉ mailboxes.map Mailbox.id := by
  have hnamed : mailbox ∈ namedMailboxes actors ↔ Names actors mailbox := by
    simp only [namedMailboxes, Names, List.mem_filterMap, List.mem_flatMap]
    constructor
    · rintro ⟨t, ⟨a, ha, ht⟩, hmailbox⟩
      exact ⟨a, ha, t, ht, hmailbox⟩
    · rintro ⟨a, ha, t, ht, hmailbox⟩
      exact ⟨t, ⟨a, ha, ht⟩, hmailbox⟩
  rw [missingMailboxes, mem_ascendingBy_iff fun _ _ _ _ heq => Function.injective_id heq,
    List.mem_filter, hnamed, decide_eq_true_eq]

theorem ascending_missingMailboxes (actors : List Actor) (mailboxes : List Mailbox) :
    Ascending id (missingMailboxes actors mailboxes) :=
  ascending_ascendingBy _

/-- With the declared number of actors the other problems are left. -/
theorem problems_of_length_eq {declared : Nat} {actors : List Actor}
    (h : actors.length = declared) (mailboxes : List Mailbox) :
    problems declared actors mailboxes =
      (repetitions [] (actors.map Actor.id)).map .repeatedActor ++
        (repetitions [] (mailboxes.map Mailbox.id)).map .repeatedMailbox ++
        (missingMailboxes actors mailboxes).map .unknownMailbox := by
  unfold problems
  rw [if_pos h, List.nil_append]

/-- Nothing is wrong with a model iff it has the declared number of actors, no number is used
twice and each mailbox that is named is listed. -/
theorem problems_eq_nil_iff {declared : Nat} {actors : List Actor} {mailboxes : List Mailbox} :
    problems declared actors mailboxes = [] ↔
      actors.length = declared ∧ (actors.map Actor.id).Nodup ∧ (mailboxes.map Mailbox.id).Nodup ∧
        ∀ id, Names actors id → id ∈ mailboxes.map Mailbox.id := by
  have hmissing : missingMailboxes actors mailboxes = [] ↔
      ∀ id, Names actors id → id ∈ mailboxes.map Mailbox.id := by
    simp only [List.eq_nil_iff_forall_not_mem, mem_missingMailboxes_iff, not_and, not_not]
  simp only [problems, List.append_eq_nil_iff, List.map_eq_nil_iff, repetitions_eq_nil_iff,
    hmissing, ite_eq_left_iff, reduceCtorEq, imp_false, not_not, List.not_mem_nil,
    not_false_eq_true, implies_true, and_true, and_assoc]

/-- A member of a list without problems names only mailboxes that are listed. -/
theorem mem_mailboxes_of_problems_eq_nil {declared : Nat} {actors : List Actor}
    {mailboxes : List Mailbox} (h : problems declared actors mailboxes = [])
    {a : Actor} (ha : a ∈ actors) {t : Transition} (ht : t ∈ a.transitions)
    {id : MailboxId} (hid : t.action.mailbox? = some id) : id ∈ mailboxes.map Mailbox.id :=
  (problems_eq_nil_iff.1 h).2.2.2 id ⟨a, ha, t, ht, hid⟩

/-! ### Actors within the bound -/

/-- An actor is not longer than the bound, if there is one. -/
def Bounds.Admits (bounds : Bounds) (entry : ActorId × List Action) : Prop :=
  ∀ capacity ∈ bounds.actorLength, entry.2.length ≤ capacity

instance (bounds : Bounds) (entry : ActorId × List Action) : Decidable (bounds.Admits entry) :=
  inferInstanceAs (Decidable (∀ capacity ∈ bounds.actorLength, entry.2.length ≤ capacity))

/-- An actor as it was added, placed without a bound. -/
def Actor.ofEntry (entry : ActorId × List Action) : Actor := Actor.ofActions entry.1 entry.2

section Entries

variable {bounds : Bounds} {entry : ActorId × List Action}

theorem ofActionsWithin_of_admits (h : bounds.Admits entry) :
    Actor.ofActionsWithin bounds.actorLength entry.1 entry.2 = .ok (Actor.ofEntry entry) := by
  unfold Actor.ofActionsWithin
  split
  case h_1 => rfl
  case h_2 capacity hbound => exact if_pos (h capacity hbound)

theorem ofActionsWithin_of_not_admits {capacity : Nat} (hbound : bounds.actorLength = some capacity)
    (h : ¬ bounds.Admits entry) : Actor.ofActionsWithin bounds.actorLength entry.1 entry.2 =
      .error (.overCapacity (.actor entry.1 entry.2.length) capacity) := by
  have hlength : ¬ entry.2.length ≤ capacity := by simpa [Bounds.Admits, hbound] using h
  unfold Actor.ofActionsWithin
  rw [hbound]
  exact if_neg hlength

/-- Without a bound every actor is admitted. -/
theorem admits_of_eq_none (h : bounds.actorLength = none) : bounds.Admits entry := by
  intro capacity hcapacity
  rw [h] at hcapacity
  cases hcapacity

end Entries

/-- What is found in some elements and not in the others is found in those elements. -/
theorem filterMap_eq_map_filter {α β : Type} {p : α → Prop} [DecidablePred p] {f : α → β}
    {g : α → Option β} (hsome : ∀ x, p x → g x = some (f x)) (hnone : ∀ x, ¬ p x → g x = none)
    (xs : List α) : xs.filterMap g = (xs.filter fun x => p x).map f := by
  induction xs with
  | nil => rfl
  | cons x xs ih => by_cases hx : p x <;> simp [hx, hsome, hnone, ih]

namespace Blueprint

variable (b : Blueprint)

/-- The actors that are not longer than the bound, in the order in which they were added. -/
def kept : List (ActorId × List Action) := b.actors.filter fun entry => b.bounds.Admits entry

/-- The actors that are longer than the bound, in the order in which they were added. -/
def leftOut : List (ActorId × List Action) := b.actors.filter fun entry => ¬ b.bounds.Admits entry

/-- One complaint for each actor that is left out. -/
def excesses : List ModelError :=
  match b.bounds.actorLength with
  | none => []
  | some capacity =>
    b.leftOut.map fun entry => .overCapacity (.actor entry.1 entry.2.length) capacity

theorem placements_eq : b.placements =
    b.actors.map fun entry => Actor.ofActionsWithin b.bounds.actorLength entry.1 entry.2 := rfl

theorem placed_eq : b.placed = b.kept.map Actor.ofEntry := by
  unfold placed
  rw [placements_eq, List.filterMap_map]
  refine filterMap_eq_map_filter (fun entry hentry => ?_) (fun entry hentry => ?_) b.actors
  · rw [Function.comp_apply, ofActionsWithin_of_admits hentry]
    rfl
  · obtain ⟨capacity, hbound⟩ := Option.ne_none_iff_exists'.1 fun h => hentry (admits_of_eq_none h)
    rw [Function.comp_apply, ofActionsWithin_of_not_admits hbound hentry]
    rfl

theorem overlong_eq : b.overlong = b.excesses := by
  unfold overlong excesses
  rw [placements_eq, List.filterMap_map]
  split
  case h_1 hbound =>
    refine List.filterMap_eq_nil_iff.2 fun entry _ => ?_
    rw [Function.comp_apply, ofActionsWithin_of_admits (admits_of_eq_none hbound)]
  case h_2 capacity hbound =>
    refine filterMap_eq_map_filter (fun entry hentry => ?_) (fun entry hentry => ?_) b.actors
    · rw [Function.comp_apply, ofActionsWithin_of_not_admits hbound hentry]
    · rw [Function.comp_apply, ofActionsWithin_of_admits (not_not.1 hentry)]

/-- All that speaks against a blueprint with actors: those that are too long, and then what is
wrong with the model without them. -/
def objections : List ModelError :=
  b.overlong ++ problems b.placed.length b.placed b.freshMailboxes

/-- A blueprint is judged by the actors that it keeps. -/
theorem objections_eq : b.objections =
    b.excesses ++ problems b.kept.length (b.kept.map Actor.ofEntry) b.freshMailboxes := by
  unfold objections
  rw [overlong_eq, placed_eq, List.length_map]

variable {b}

theorem build_of_actors_ne_nil (h : b.actors ≠ []) :
    b.build = if b.objections = [] then .ok (State.ofParts b.placed b.freshMailboxes)
      else .error (.invalid b.objections) := by
  unfold build
  rw [if_neg (by simpa using h), ← objections]
  cases b.objections with
  | nil => rfl
  | cons problem rest => rfl

/-- A blueprint is refused for having no actors, or else for all that speaks against it. -/
theorem build_eq_error_iff {error : BuildError} : b.build = .error error ↔
    (b.actors = [] ∧ error = .noActors) ∨
      (b.actors ≠ [] ∧ b.objections ≠ [] ∧ error = .invalid b.objections) := by
  by_cases hactors : b.actors = []
  · have hbuild : b.build = .error .noActors := by simp [build, hactors]
    simpa [hbuild, hactors] using eq_comm
  · rw [build_of_actors_ne_nil hactors]
    by_cases hnone : b.objections = [] <;> simp [hactors, hnone, eq_comm]

/-- A blueprint without actors is the only one that is refused for having none. -/
theorem build_eq_noActors_iff : b.build = .error .noActors ↔ b.actors = [] := by
  simp [build_eq_error_iff]

theorem build_eq_invalid_iff {found : List ModelError} : b.build = .error (.invalid found) ↔
    b.actors ≠ [] ∧ b.objections ≠ [] ∧ found = b.objections := by
  simp [build_eq_error_iff]

/-- Building reads no text, so it has no complaint about one. -/
theorem build_ne_config (b : Blueprint) (complaint : String) :
    b.build ≠ .error (.config complaint) := by
  simp [build_eq_error_iff]

theorem build_eq_ok_iff {s : State} : b.build = .ok s ↔
    b.actors ≠ [] ∧ b.objections = [] ∧ s = State.ofParts b.placed b.freshMailboxes := by
  by_cases hactors : b.actors = []
  · simp [build_eq_noActors_iff.2 hactors, hactors]
  · rw [build_of_actors_ne_nil hactors]
    by_cases hnone : b.objections = [] <;> simp [hactors, hnone, eq_comm]

end Blueprint

namespace State

/-- A state that a construction returns: the state drawn up by a blueprint, or
the state of newly placed actors and empty mailboxes. -/
def IsBuilt (s : State) : Prop :=
  (∃ blueprint : Blueprint, blueprint.build = .ok s) ∨
    ∃ (declared : Nat) (actors : List (ActorId × List Action))
      (mailboxes : List (MailboxId × Option Nat)),
      make declared (actors.map fun (id, actions) => Actor.ofActions id actions)
        (mailboxes.map fun (id, capacity) => Mailbox.fresh id capacity) = .ok s

/-- Nothing has happened yet: each number files a newly placed actor or an empty
mailbox with that number, and each mailbox that is named exists. -/
structure IsInitial (s : State) : Prop where
  actor_eq : ∀ {id a}, s.actors.get? id = some a → ∃ actions, a = Actor.ofActions id actions
  mailbox_eq : ∀ {id m}, s.mailboxes.get? id = some m →
    ∃ capacity, m = Mailbox.fresh id capacity
  named : ∀ {id a t mailbox}, s.actors.get? id = some a → t ∈ a.transitions →
    t.action.mailbox? = some mailbox → ∃ m, s.mailboxes.get? mailbox = some m

/-- What is made of a model is the first problem, if there is one. -/
theorem make_eq_error_iff {declared : Nat} {actors : List Actor} {mailboxes : List Mailbox}
    {error : ModelError} : make declared actors mailboxes = .error error ↔
      (problems declared actors mailboxes).head? = some error := by
  unfold make
  cases problems declared actors mailboxes with
  | nil => simp
  | cons problem rest => simp

theorem make_eq_ok_iff {declared : Nat} {actors : List Actor} {mailboxes : List Mailbox}
    {s : State} : make declared actors mailboxes = .ok s ↔
      problems declared actors mailboxes = [] ∧ s = ofParts actors mailboxes := by
  unfold make
  cases problems declared actors mailboxes with
  | nil => simp [eq_comm]
  | cons problem rest => simp

/-- Newly placed actors and empty mailboxes without problems make an initial
state. -/
theorem isInitial_ofParts {declared : Nat} {actors : List Actor} {mailboxes : List Mailbox}
    (hproblems : problems declared actors mailboxes = [])
    (hactors : ∀ a ∈ actors, ∃ actions, a = Actor.ofActions a.id actions)
    (hmailboxes : ∀ m ∈ mailboxes, ∃ capacity, m = Mailbox.fresh m.id capacity) :
    (ofParts actors mailboxes).IsInitial where
  actor_eq h := by
    obtain ⟨hmem, rfl⟩ := Table.mem_of_get?_ofList_map h
    exact hactors _ hmem
  mailbox_eq h := by
    obtain ⟨hmem, rfl⟩ := Table.mem_of_get?_ofList_map h
    exact hmailboxes _ hmem
  named h ht hnamed := by
    obtain ⟨hmem, -⟩ := Table.mem_of_get?_ofList_map h
    exact Table.exists_get?_ofList_map (mem_mailboxes_of_problems_eq_nil hproblems hmem ht hnamed)

theorem isInitial_of_build {blueprint : Blueprint} {s : State} (h : blueprint.build = .ok s) :
    s.IsInitial := by
  obtain ⟨-, hnone, rfl⟩ := Blueprint.build_eq_ok_iff.1 h
  refine isInitial_ofParts (List.append_eq_nil_iff.1 hnone).2 ?_ ?_
  -- Only the actors that keep the bound are placed, each as without a bound.
  · intro a ha
    rw [Blueprint.placed_eq] at ha
    obtain ⟨entry, -, rfl⟩ := List.mem_map.1 ha
    exact ⟨entry.2, rfl⟩
  · intro m hm
    obtain ⟨id, -, rfl⟩ := List.mem_map.1 hm
    exact ⟨_, rfl⟩

theorem isInitial_of_make {declared : Nat} {actors : List (ActorId × List Action)}
    {mailboxes : List (MailboxId × Option Nat)} {s : State}
    (h : make declared (actors.map fun (id, actions) => Actor.ofActions id actions)
      (mailboxes.map fun (id, capacity) => Mailbox.fresh id capacity) = .ok s) :
    s.IsInitial := by
  obtain ⟨hnone, rfl⟩ := make_eq_ok_iff.1 h
  refine isInitial_ofParts hnone ?_ ?_
  · intro a ha
    obtain ⟨⟨id, actions⟩, -, rfl⟩ := List.mem_map.1 ha
    exact ⟨actions, rfl⟩
  · intro m hm
    obtain ⟨⟨id, capacity⟩, -, rfl⟩ := List.mem_map.1 hm
    exact ⟨capacity, rfl⟩

/-- Whatever a construction returns is an initial state. -/
theorem IsBuilt.isInitial {s : State} (h : s.IsBuilt) : s.IsInitial := by
  rcases h with ⟨blueprint, hbuild⟩ | ⟨declared, actors, mailboxes, hmake⟩
  · exact isInitial_of_build hbuild
  · exact isInitial_of_make hmake

end State

end Interleaving
