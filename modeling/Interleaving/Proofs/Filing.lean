import Interleaving.Proofs.Construction

/-!
# What is taken from a snapshot

A snapshot is checked in three rounds: the actors must be filed under their own numbers, then the
mailboxes, and at last the model that the two tables list must have no problem.  Values that are
filed under their own numbers have different numbers, so a missing mailbox is the only problem
that the last round can find (`State.problems_of_isFiled`).  Each round goes through the numbers
in ascending order, so what it reports is the least number with a fault.
-/

namespace Interleaving

namespace Table

variable {α : Type}

/-- Each value is filed under its own number. -/
def IsFiled (number : α → Nat) (t : Table α) : Prop :=
  ∀ key x, t.get? key = some x → number x = key

/-- The least number in use that is not the number of its value. -/
structure FirstMisfiled (number : α → Nat) (t : Table α) (key : Nat) (x : α) : Prop where
  get?_eq : t.get? key = some x
  number_ne : number x ≠ key
  before : ∀ other y, other < key → t.get? other = some y → number y = other

variable {number : α → Nat} {t : Table α}

/-- The search of `misfiled?` passes over what is filed. -/
theorem decide_misfiled_eq_false_iff {key : Nat} {x : α} :
    decide (key ≠ number x) = false ↔ number x = key := by
  rw [decide_eq_false_iff_not, not_not]
  exact eq_comm

theorem find?_misfiled_eq_none_iff :
    t.entries.find? (fun (key, x) => key ≠ number x) = none ↔ t.IsFiled number := by
  simp only [List.find?_eq_none, Bool.not_eq_true, decide_misfiled_eq_false_iff, Prod.forall,
    mem_entries_iff, IsFiled]

theorem find?_misfiled_eq_some_iff {key : Nat} {x : α} :
    t.entries.find? (fun (key, x) => key ≠ number x) = some (key, x) ↔
      t.FirstMisfiled number key x := by
  rw [t.ascending.find?_eq_some_iff, mem_entries_iff]
  constructor
  · rintro ⟨hx, hne, hbefore⟩
    refine ⟨hx, Ne.symm (of_decide_eq_true hne), fun other y hlt hy => ?_⟩
    have hother := hbefore (other, y) ((mem_entries_iff t other y).2 hy) hlt
    exact decide_misfiled_eq_false_iff.1 hother
  · intro h
    refine ⟨h.get?_eq, decide_eq_true h.number_ne.symm, fun (other, y) hmem hlt => ?_⟩
    have hother := h.before other y hlt ((mem_entries_iff t other y).1 hmem)
    exact decide_misfiled_eq_false_iff.2 hother

theorem misfiled?_eq_none_iff {what : Kept} :
    t.misfiled? what number = none ↔ t.IsFiled number := by
  rw [misfiled?, Option.map_eq_none_iff, find?_misfiled_eq_none_iff]

/-- The complaint is about the least number that files something else. -/
theorem misfiled?_eq_some_iff {what : Kept} {error : ModelError} :
    t.misfiled? what number = some error ↔
      ∃ key x, t.FirstMisfiled number key x ∧ .misfiled what key (number x) = error := by
  simp only [misfiled?, Option.map_eq_some_iff, Prod.exists, find?_misfiled_eq_some_iff]

/-- Values that are filed under their own numbers have different ones. -/
theorem IsFiled.repetitions_eq_nil (h : t.IsFiled number) :
    repetitions [] (t.values.map number) = [] := by
  rw [map_values_eq_keys (h _ _)]
  exact repetitions_eq_nil_iff.2 ⟨t.nodup_keys, fun _ _ => List.not_mem_nil⟩

end Table

namespace State

variable {actors : Table Actor} {mailboxes : Table Mailbox}

/-- The least number that one of the actors names and that files no mailbox. -/
structure FirstMissing (actors : Table Actor) (mailboxes : Table Mailbox) (mailbox : MailboxId) :
    Prop where
  named : Names actors.values mailbox
  not_mem : mailbox ∉ mailboxes.keys
  before : ∀ other < mailbox, Names actors.values other → other ∈ mailboxes.keys

/-- `Rejects actors mailboxes error` says that `error` is the first fault of a snapshot.  A
misfiled actor comes before a misfiled mailbox, and that before a missing one. -/
inductive Rejects (actors : Table Actor) (mailboxes : Table Mailbox) : ModelError → Prop
  | misfiledActor {key : ActorId} {a : Actor} (hfirst : actors.FirstMisfiled Actor.id key a) :
      Rejects actors mailboxes (.misfiled .actor key a.id)
  | misfiledMailbox {key : MailboxId} {m : Mailbox} (hactors : actors.IsFiled Actor.id)
      (hfirst : mailboxes.FirstMisfiled Mailbox.id key m) :
      Rejects actors mailboxes (.misfiled .mailbox key m.id)
  | unknownMailbox {mailbox : MailboxId} (hactors : actors.IsFiled Actor.id)
      (hmailboxes : mailboxes.IsFiled Mailbox.id)
      (hfirst : FirstMissing actors mailboxes mailbox) :
      Rejects actors mailboxes (.unknownMailbox mailbox)

/-! ### The check of the model -/

theorem mem_missingMailboxes_values_iff (hmailboxes : mailboxes.IsFiled Mailbox.id)
    {mailbox : MailboxId} : mailbox ∈ missingMailboxes actors.values mailboxes.values ↔
      Names actors.values mailbox ∧ mailbox ∉ mailboxes.keys := by
  rw [mem_missingMailboxes_iff, Table.map_values_eq_keys (hmailboxes _ _)]

theorem head?_missingMailboxes_eq_some_iff (hmailboxes : mailboxes.IsFiled Mailbox.id)
    {mailbox : MailboxId} :
    (missingMailboxes actors.values mailboxes.values).head? = some mailbox ↔
      FirstMissing actors mailboxes mailbox := by
  rw [(ascending_missingMailboxes _ _).head?_eq_some_iff]
  simp only [mem_missingMailboxes_values_iff hmailboxes, id]
  constructor
  · rintro ⟨⟨hnamed, hnot⟩, hleast⟩
    refine ⟨hnamed, hnot, fun other hlt hother => ?_⟩
    by_contra hnone
    exact Nat.not_le_of_lt hlt (hleast other ⟨hother, hnone⟩)
  · intro h
    refine ⟨⟨h.named, h.not_mem⟩, fun other ⟨hother, hnone⟩ => Nat.le_of_not_lt fun hlt => ?_⟩
    exact hnone (h.before other hlt hother)

section Filed

variable (hactors : actors.IsFiled Actor.id) (hmailboxes : mailboxes.IsFiled Mailbox.id)
include hactors hmailboxes

theorem ofTables_of_isFiled :
    ofTables actors mailboxes = make actors.size actors.values mailboxes.values := by
  unfold ofTables
  rw [Table.misfiled?_eq_none_iff.2 hactors, Table.misfiled?_eq_none_iff.2 hmailboxes]

theorem ofParts_of_isFiled : ofParts actors.values mailboxes.values = ⟨actors, mailboxes⟩ := by
  unfold ofParts
  rw [Table.ofList_values (hactors _ _), Table.ofList_values (hmailboxes _ _)]

/-- Only mailboxes can be missing: the number of actors is right and no number is repeated. -/
theorem problems_of_isFiled : problems actors.size actors.values mailboxes.values =
    (missingMailboxes actors.values mailboxes.values).map .unknownMailbox := by
  have hsize : actors.values.length = actors.size := List.length_map _
  rw [problems_of_length_eq hsize, hactors.repetitions_eq_nil, hmailboxes.repetitions_eq_nil]
  rfl

theorem make_eq_ok_iff_of_isFiled {s : State} :
    make actors.size actors.values mailboxes.values = .ok s ↔
      (∀ mailbox, Names actors.values mailbox → mailbox ∈ mailboxes.keys) ∧
        s = ⟨actors, mailboxes⟩ := by
  rw [make_eq_ok_iff, problems_of_isFiled hactors hmailboxes,
    ofParts_of_isFiled hactors hmailboxes, List.map_eq_nil_iff, List.eq_nil_iff_forall_not_mem]
  simp only [mem_missingMailboxes_values_iff hmailboxes, not_and, not_not]

theorem make_eq_error_iff_of_isFiled {error : ModelError} :
    make actors.size actors.values mailboxes.values = .error error ↔
      ∃ mailbox, FirstMissing actors mailboxes mailbox ∧ .unknownMailbox mailbox = error := by
  rw [make_eq_error_iff, problems_of_isFiled hactors hmailboxes, List.head?_map,
    Option.map_eq_some_iff]
  simp only [head?_missingMailboxes_eq_some_iff hmailboxes]

end Filed

/-! ### The outcome -/

/-- The first misfiled actor decides, then the first misfiled mailbox, and then the model. -/
theorem ofTables_cases (actors : Table Actor) (mailboxes : Table Mailbox) :
    (∃ key a, actors.FirstMisfiled Actor.id key a ∧
      ofTables actors mailboxes = .error (.misfiled .actor key a.id)) ∨
    (∃ key m, actors.IsFiled Actor.id ∧ mailboxes.FirstMisfiled Mailbox.id key m ∧
      ofTables actors mailboxes = .error (.misfiled .mailbox key m.id)) ∨
    (actors.IsFiled Actor.id ∧ mailboxes.IsFiled Mailbox.id ∧
      ofTables actors mailboxes = make actors.size actors.values mailboxes.values) := by
  cases hactor : actors.misfiled? .actor Actor.id with
  | some error =>
      obtain ⟨key, a, hfirst, rfl⟩ := Table.misfiled?_eq_some_iff.1 hactor
      exact .inl ⟨key, a, hfirst, by simp only [ofTables, hactor]⟩
  | none =>
      have hactors := Table.misfiled?_eq_none_iff.1 hactor
      cases hmailbox : mailboxes.misfiled? .mailbox Mailbox.id with
      | some error =>
          obtain ⟨key, m, hfirst, rfl⟩ := Table.misfiled?_eq_some_iff.1 hmailbox
          exact .inr (.inl ⟨key, m, hactors, hfirst, by simp only [ofTables, hactor, hmailbox]⟩)
      | none =>
          have hmailboxes := Table.misfiled?_eq_none_iff.1 hmailbox
          exact .inr (.inr ⟨hactors, hmailboxes, ofTables_of_isFiled hactors hmailboxes⟩)

theorem ofTables_eq_ok_iff {s : State} : ofTables actors mailboxes = .ok s ↔
    (actors.IsFiled Actor.id ∧ mailboxes.IsFiled Mailbox.id ∧
      ∀ mailbox, Names actors.values mailbox → mailbox ∈ mailboxes.keys) ∧
    s = ⟨actors, mailboxes⟩ := by
  constructor
  · intro h
    rcases ofTables_cases actors mailboxes with
      ⟨key, a, -, heq⟩ | ⟨key, m, -, -, heq⟩ | ⟨hactors, hmailboxes, heq⟩
    · rw [heq] at h
      cases h
    · rw [heq] at h
      cases h
    · rw [heq, make_eq_ok_iff_of_isFiled hactors hmailboxes] at h
      exact ⟨⟨hactors, hmailboxes, h.1⟩, h.2⟩
  · rintro ⟨⟨hactors, hmailboxes, hnamed⟩, hs⟩
    rw [ofTables_of_isFiled hactors hmailboxes, make_eq_ok_iff_of_isFiled hactors hmailboxes]
    exact ⟨hnamed, hs⟩

theorem rejects_of_ofTables {error : ModelError} (h : ofTables actors mailboxes = .error error) :
    Rejects actors mailboxes error := by
  rcases ofTables_cases actors mailboxes with
    ⟨key, a, hfirst, heq⟩ | ⟨key, m, hactors, hfirst, heq⟩ | ⟨hactors, hmailboxes, heq⟩
  · rw [heq] at h
    cases h
    exact .misfiledActor hfirst
  · rw [heq] at h
    cases h
    exact .misfiledMailbox hactors hfirst
  · rw [heq, make_eq_error_iff_of_isFiled hactors hmailboxes] at h
    obtain ⟨mailbox, hfirst, rfl⟩ := h
    exact .unknownMailbox hactors hmailboxes hfirst

theorem ofTables_of_rejects {error : ModelError} (h : Rejects actors mailboxes error) :
    ofTables actors mailboxes = .error error := by
  cases h with
  | misfiledActor hfirst =>
      unfold ofTables
      rw [Table.misfiled?_eq_some_iff.2 ⟨_, _, hfirst, rfl⟩]
  | misfiledMailbox hactors hfirst =>
      unfold ofTables
      rw [Table.misfiled?_eq_none_iff.2 hactors,
        Table.misfiled?_eq_some_iff.2 ⟨_, _, hfirst, rfl⟩]
  | unknownMailbox hactors hmailboxes hfirst =>
      rw [ofTables_of_isFiled hactors hmailboxes, make_eq_error_iff_of_isFiled hactors hmailboxes]
      exact ⟨_, hfirst, rfl⟩

/-- **A snapshot is taken as it is or rejected for its first fault.**  It is taken iff everything
is filed under its own number and each mailbox that is named is filed, and nothing in it is
altered.  Otherwise the first fault is told; the number of actors and repeated numbers are never
a fault, whatever the two tables hold. -/
theorem ofTables_accepts_or_rejects (actors : Table Actor) (mailboxes : Table Mailbox) :
    ((∃ s, ofTables actors mailboxes = .ok s) ↔
      actors.IsFiled Actor.id ∧ mailboxes.IsFiled Mailbox.id ∧
        ∀ mailbox, Names actors.values mailbox → mailbox ∈ mailboxes.keys) ∧
    (∀ s, ofTables actors mailboxes = .ok s →
      s.actors = actors ∧ s.mailboxes = mailboxes) ∧
    (∀ error, ofTables actors mailboxes = .error error ↔ Rejects actors mailboxes error) ∧
    ∀ error, ofTables actors mailboxes = .error error →
      (∀ declared actual, error ≠ .countMismatch declared actual) ∧
      (∀ id, error ≠ .repeatedActor id) ∧ ∀ id, error ≠ .repeatedMailbox id := by
  refine ⟨?_, fun s h => ?_, fun error => ⟨rejects_of_ofTables, ofTables_of_rejects⟩,
    fun error h => ?_⟩
  · simp only [ofTables_eq_ok_iff, exists_and_left, exists_eq, and_true]
  · obtain ⟨-, rfl⟩ := ofTables_eq_ok_iff.1 h
    exact ⟨rfl, rfl⟩
  · cases rejects_of_ofTables h <;> simp

/-- One archive that is taken, although a transition is marked out of turn, and three that are
not.  The second one has faults of all kinds and the last one lacks two mailboxes. -/
theorem archives_are_taken_or_rejected :
    let sender : Actor := ⟨2, [⟨⟨0, 2⟩, .post .send 5 0, false⟩, ⟨⟨1, 2⟩, .wait 4 0, true⟩]⟩
    let actors := Table.ofList [(2, sender)]
    let mailboxes := Table.ofList [(4, Mailbox.fresh 4 none), (5, Mailbox.fresh 5 (some 1))]
    (∃ s, ofTables actors mailboxes = .ok s ∧ s.actors = actors ∧ s.mailboxes = mailboxes) ∧
      Rejects (Table.ofList [(2, sender), (3, sender), (4, sender)])
        (Table.ofList [(1, Mailbox.fresh 6 none)]) (.misfiled .actor 3 2) ∧
      Rejects actors (Table.ofList [(6, Mailbox.fresh 6 none), (7, Mailbox.fresh 8 none)])
        (.misfiled .mailbox 7 8) ∧
      Rejects actors (Table.ofList [(6, Mailbox.fresh 6 none)]) (.unknownMailbox 4) := by
  intro sender actors mailboxes
  obtain ⟨-, hsame, -⟩ := ofTables_accepts_or_rejects actors mailboxes
  have hload : ofTables actors mailboxes = .ok ⟨actors, mailboxes⟩ := by decide
  exact ⟨⟨_, hload, hsame _ hload⟩,
    ((ofTables_accepts_or_rejects _ _).2.2.1 _).1 (by decide),
    ((ofTables_accepts_or_rejects _ _).2.2.1 _).1 (by decide),
    ((ofTables_accepts_or_rejects _ _).2.2.1 _).1 (by decide)⟩

end State

end Interleaving
