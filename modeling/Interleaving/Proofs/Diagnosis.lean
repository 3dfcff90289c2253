import Interleaving.Proofs.Construction

/-!
# What is wrong with a model

`problems` scans the lists of a model, with sets of what it has seen.  `IsDiagnosis` says what it
has to report without scanning: an entry is a repetition if an equal one stands before it, and a
mailbox is missing if it is named and not listed.  The report is exactly that
(`isDiagnosis_problems`), and a model without problems becomes a state that holds what was
listed and nothing else.
-/

namespace Interleaving

/-- The entries of a list that have an equal one before them, in order. -/
def laterEntries (ns : List Nat) : List Nat :=
  (ns.zipIdx.filter fun entry => entry.1 ∈ ns.take entry.2).map Prod.fst

theorem laterEntries_append_singleton (ns : List Nat) (n : Nat) :
    laterEntries (ns ++ [n]) = laterEntries ns ++ if n ∈ ns then [n] else [] := by
  have hbefore : ∀ entry ∈ ns.zipIdx, (ns ++ [n]).take entry.2 = ns.take entry.2 := by
    intro entry hentry
    have hlt := List.snd_lt_of_mem_zipIdx hentry
    exact List.take_append_of_le_length (by omega)
  unfold laterEntries
  rw [List.zipIdx_append, List.filter_append, List.map_append]
  congr 1
  · congr 1
    refine List.filter_congr fun entry hentry => ?_
    rw [hbefore entry hentry]
  · by_cases hn : n ∈ ns <;> simp [hn]

/-- One more entry is a repetition iff it was seen or listed before. -/
theorem repetitions_append_singleton (seen ns : List Nat) (n : Nat) :
    repetitions seen (ns ++ [n]) =
      repetitions seen ns ++ if n ∈ seen ∨ n ∈ ns then [n] else [] := by
  induction ns generalizing seen with
  | nil => by_cases hn : n ∈ seen <;> simp [repetitions, hn]
  | cons first ns ih =>
      rw [List.cons_append]
      unfold repetitions
      by_cases hfirst : first ∈ seen
      · -- The first entry was seen before, so nothing is lost when it is left out.
        have hiff : (n ∈ seen ∨ n ∈ first :: ns) ↔ (n ∈ seen ∨ n ∈ ns) := by
          rw [List.mem_cons]
          constructor
          · rintro (hn | rfl | hn)
            · exact .inl hn
            · exact .inl hfirst
            · exact .inr hn
          · rintro (hn | hn)
            · exact .inl hn
            · exact .inr (.inr hn)
        rw [if_pos hfirst, if_pos hfirst, ih, List.cons_append]
        simp only [hiff]
      · have hiff : (n ∈ first :: seen ∨ n ∈ ns) ↔ (n ∈ seen ∨ n ∈ first :: ns) := by
          rw [List.mem_cons, List.mem_cons, or_assoc]
          exact or_left_comm
        rw [if_neg hfirst, if_neg hfirst, ih]
        simp only [hiff]

/-- The scan finds the entries that have an equal one before them. -/
theorem repetitions_eq_laterEntries (ns : List Nat) : repetitions [] ns = laterEntries ns := by
  induction ns using List.reverseRecOn with
  | nil => rfl
  | append_singleton ns n ih =>
      rw [repetitions_append_singleton, laterEntries_append_singleton, ih]
      simp

/-- `found` tells all that is wrong with a model and nothing else: first that the number of
actors is not the declared one, then each entry of the actors that repeats a number, then each
such entry of the mailboxes, and at last the missing mailboxes, each once and ascending. -/
def IsDiagnosis (declared : Nat) (actors : List Actor) (mailboxes : List Mailbox)
    (found : List ModelError) : Prop :=
  ∃ missing : List MailboxId, missing.Pairwise (· < ·) ∧
    (∀ id, id ∈ missing ↔ Names actors id ∧ id ∉ mailboxes.map Mailbox.id) ∧
    found = (if actors.length = declared then [] else [.countMismatch declared actors.length]) ++
      (laterEntries (actors.map Actor.id)).map .repeatedActor ++
      (laterEntries (mailboxes.map Mailbox.id)).map .repeatedMailbox ++
      missing.map .unknownMailbox

theorem isDiagnosis_problems (declared : Nat) (actors : List Actor) (mailboxes : List Mailbox) :
    IsDiagnosis declared actors mailboxes (problems declared actors mailboxes) := by
  refine ⟨missingMailboxes actors mailboxes, pairwise_lt_ascendingBy _,
    fun _ => mem_missingMailboxes_iff, ?_⟩
  rw [← repetitions_eq_laterEntries, ← repetitions_eq_laterEntries]
  rfl

namespace State

/-- **A model is diagnosed completely.**  There is no problem iff the number of actors is the
declared one, no number is used twice and each mailbox that is named is listed.  The problems
are told in order, each repetition once and each missing mailbox once.  What is made of the
lists is the first problem, or a state that looks up exactly what was listed. -/
theorem make_diagnoses (declared : Nat) (actors : List Actor) (mailboxes : List Mailbox) :
    (problems declared actors mailboxes = [] ↔
      actors.length = declared ∧ (actors.map Actor.id).Nodup ∧ (mailboxes.map Mailbox.id).Nodup ∧
        ∀ id, Names actors id → id ∈ mailboxes.map Mailbox.id) ∧
    IsDiagnosis declared actors mailboxes (problems declared actors mailboxes) ∧
    (∀ error, make declared actors mailboxes = .error error ↔
      (problems declared actors mailboxes).head? = some error) ∧
    ((∃ s, make declared actors mailboxes = .ok s) ↔ problems declared actors mailboxes = []) ∧
    ∀ s, make declared actors mailboxes = .ok s →
      (∀ id a, s.actors.get? id = some a ↔ a ∈ actors ∧ a.id = id) ∧
      ∀ id m, s.mailboxes.get? id = some m ↔ m ∈ mailboxes ∧ m.id = id := by
  refine ⟨problems_eq_nil_iff, isDiagnosis_problems declared actors mailboxes,
    fun error => make_eq_error_iff, ?_, fun s h => ?_⟩
  · simp only [make_eq_ok_iff, exists_and_left, exists_eq, and_true]
  · obtain ⟨hnone, rfl⟩ := make_eq_ok_iff.1 h
    obtain ⟨-, hactors, hmailboxes, -⟩ := problems_eq_nil_iff.1 hnone
    exact ⟨fun id a => Table.get?_ofList_map_eq_some_iff hactors,
      fun id m => Table.get?_ofList_map_eq_some_iff hmailboxes⟩

/-- Two actors where three are declared, and everything else that can be wrong: the actors and
the mailboxes share a number, and two mailboxes are missing, one of them named twice. -/
theorem make_diagnoses_muddle :
    let actors := [Actor.ofActions 0 [.post .send 5 0, .wait 5 0],
      Actor.ofActions 0 [.post .receive 3 0, .post .send 1 0]]
    let mailboxes := [Mailbox.fresh 1 none, Mailbox.fresh 1 (some 4)]
    let found := [.countMismatch 3 2, .repeatedActor 0, .repeatedMailbox 1, .unknownMailbox 3,
      .unknownMailbox 5]
    IsDiagnosis 3 actors mailboxes found ∧
      make 3 actors mailboxes = .error (.countMismatch 3 2) ∧
      ∃ s, make 1 [Actor.ofActions 8 [.lock 0]] [Mailbox.fresh 1 none] = .ok s ∧
        s.actors.get? 8 = some (Actor.ofActions 8 [.lock 0]) := by
  obtain ⟨-, hdiagnosis, herror, -⟩ := make_diagnoses 3
    [Actor.ofActions 0 [.post .send 5 0, .wait 5 0],
      Actor.ofActions 0 [.post .receive 3 0, .post .send 1 0]]
    [Mailbox.fresh 1 none, Mailbox.fresh 1 (some 4)]
  obtain ⟨-, -, -, -, hlookup⟩ := make_diagnoses 1 [Actor.ofActions 8 [.lock 0]]
    [Mailbox.fresh 1 none]
  refine ⟨hdiagnosis, (herror _).2 rfl, _, rfl, ?_⟩
  exact ((hlookup _ rfl).1 8 _).2 ⟨List.mem_singleton_self _, rfl⟩

end State

end Interleaving
