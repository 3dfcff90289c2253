import Interleaving.Proofs.Rendezvous

/-!
# What a post is matched with

In a mailbox with any records in any order a post is matched with the oldest pending record
of the other log (`Mailbox.Settles`).  Afterwards those communications are matched that were
matched before, and if there was a pending record, its communication and the posted one too
(`Mailbox.isMatched_append_iff`).
-/

namespace Interleaving

namespace Mailbox

/-- The records `settled` are `records` with the oldest pending one, `partner`, made ready. -/
def Settles (records : List Record) (partner : Record) (settled : List Record) : Prop :=
  ∃ older newer, records = older ++ partner :: newer ∧ (∀ r ∈ older, r.status = .ready) ∧
    partner.status = .pending ∧ settled = older ++ { partner with status := .ready } :: newer

theorem settles_cons_of_pending {r partner : Record} {records settled : List Record}
    (h : r.status = .pending) : Settles (r :: records) partner settled ↔
      partner = r ∧ settled = { r with status := .ready } :: records := by
  constructor
  · rintro ⟨older, newer, hsplit, holder, -, rfl⟩
    cases older with
    | nil =>
        rw [List.nil_append, List.cons.injEq] at hsplit
        obtain ⟨rfl, rfl⟩ := hsplit
        exact ⟨rfl, rfl⟩
    | cons first older =>
        -- The pending record `r` would stand among the older ones, which are ready.
        rw [List.cons_append, List.cons.injEq] at hsplit
        have hready := holder first List.mem_cons_self
        rw [← hsplit.1, h] at hready
        cases hready
  · rintro ⟨rfl, rfl⟩
    exact ⟨[], records, rfl, fun _ hmem => absurd hmem List.not_mem_nil, h, rfl⟩

theorem settles_cons_of_ready {r partner : Record} {records settled : List Record}
    (h : r.status = .ready) : Settles (r :: records) partner settled ↔
      ∃ rest, Settles records partner rest ∧ settled = r :: rest := by
  constructor
  · rintro ⟨older, newer, hsplit, holder, hpending, rfl⟩
    cases older with
    | nil =>
        rw [List.nil_append, List.cons.injEq] at hsplit
        rw [← hsplit.1, h] at hpending
        cases hpending
    | cons first older =>
        rw [List.cons_append, List.cons.injEq] at hsplit
        obtain ⟨rfl, rfl⟩ := hsplit
        exact ⟨_, ⟨older, newer, rfl, fun r hr => holder r (List.mem_cons_of_mem _ hr), hpending,
          rfl⟩, rfl⟩
  · rintro ⟨rest, ⟨older, newer, rfl, holder, hpending, rfl⟩, rfl⟩
    refine ⟨r :: older, newer, rfl, fun r' hr' => ?_, hpending, rfl⟩
    rcases List.mem_cons.1 hr' with rfl | hmem
    · exact h
    · exact holder r' hmem

/-- The scan settles the oldest pending record. -/
theorem settle?_eq_some_iff {records settled : List Record} :
    settle? records = some settled ↔ ∃ partner, Settles records partner settled := by
  induction records generalizing settled with
  | nil =>
      constructor
      · intro h
        cases h
      · rintro ⟨partner, older, newer, hsplit, -⟩
        simp at hsplit
  | cons r records ih =>
      unfold settle?
      split
      case h_1 hpending => simp [settles_cons_of_pending hpending, eq_comm]
      case h_2 hready =>
        simp only [settles_cons_of_ready hready, Option.map_eq_some_iff, ih]
        constructor
        · rintro ⟨rest, ⟨partner, hsettles⟩, rfl⟩
          exact ⟨partner, rest, hsettles, rfl⟩
        · rintro ⟨partner, rest, hsettles, rfl⟩
          exact ⟨rest, ⟨partner, hsettles⟩, rfl⟩

/-- There is one oldest pending record. -/
theorem Settles.unique {records settled settled' : List Record} {partner partner' : Record}
    (h : Settles records partner settled) (h' : Settles records partner' settled') :
    partner = partner' := by
  have hfirst : ∀ {partner settled}, Settles records partner settled →
      records.find? (fun r => r.status = .pending) = some partner := by
    rintro partner settled ⟨older, newer, hsplit, holder, hpending, -⟩
    refine List.find?_eq_some_iff_append.2 ⟨by simpa using hpending, older, newer, hsplit, ?_⟩
    intro r hr
    simp [holder r hr]
  have hsome := hfirst h
  rw [hfirst h', Option.some.injEq] at hsome
  exact hsome.symm

/-- Of all records only the settled one becomes ready. -/
theorem Settles.mem_ready_iff {records settled : List Record} {partner : Record}
    (h : Settles records partner settled) (owner : ActorId) (comm : CommId) :
    (⟨owner, comm, .ready⟩ : Record) ∈ settled ↔ (⟨owner, comm, .ready⟩ : Record) ∈ records ∨
      (owner = partner.owner ∧ comm = partner.comm) := by
  obtain ⟨older, newer, rfl, -, hpending, rfl⟩ := h
  have hne : (⟨owner, comm, .ready⟩ : Record) ≠ partner := by
    rintro rfl
    cases hpending
  simp only [List.mem_append, List.mem_cons, hne, Record.mk.injEq, and_true, false_or]
  tauto

/-- A post is matched with the oldest pending record of the other log, and their two
communications are the only ones that it matches. -/
theorem isMatched_append_iff (m : Mailbox) (side : Side) (owner owner' : ActorId)
    (comm comm' : CommId) :
    (m.append side owner comm).isMatched owner' comm' = true ↔
      m.isMatched owner' comm' = true ∨
        ∃ partner, Settles (m.log side.partner) partner
            ((m.append side owner comm).log side.partner) ∧
          ((owner' = partner.owner ∧ comm' = partner.comm) ∨ (owner' = owner ∧ comm' = comm)) := by
  have hsides : ∀ n : Mailbox, n.isMatched owner' comm' = true ↔
      (⟨owner', comm', .ready⟩ : Record) ∈ n.log side ∨
        (⟨owner', comm', .ready⟩ : Record) ∈ n.log side.partner := by
    intro n
    rw [isMatched_iff]
    constructor
    · rintro ⟨other, hmem⟩
      rcases side.eq_or_eq_partner other with rfl | rfl
      · exact .inl hmem
      · exact .inr hmem
    · rintro (hmem | hmem)
      · exact ⟨side, hmem⟩
      · exact ⟨side.partner, hmem⟩
  rw [hsides, hsides]
  cases hsettle : settle? (m.log side.partner) with
  | some settled =>
      obtain ⟨partner, hsettles⟩ := settle?_eq_some_iff.1 hsettle
      obtain ⟨hself, hpartner⟩ := log_append_of_settled hsettle owner comm
      rw [hself, hpartner, hsettles.mem_ready_iff, List.mem_append, List.mem_singleton,
        Record.mk.injEq]
      constructor
      · rintro ((hmem | ⟨rfl, rfl, -⟩) | (hmem | hpartner))
        · exact .inl (.inl hmem)
        · exact .inr ⟨partner, hsettles, .inr ⟨rfl, rfl⟩⟩
        · exact .inl (.inr hmem)
        · exact .inr ⟨partner, hsettles, .inl hpartner⟩
      · rintro ((hmem | hmem) | ⟨partner', hsettles', hpartner | ⟨rfl, rfl⟩⟩)
        · exact .inl (.inl hmem)
        · exact .inr (.inl hmem)
        · exact .inr (.inr (hsettles.unique hsettles' ▸ hpartner))
        · exact .inl (.inr ⟨rfl, rfl, rfl⟩)
  | none =>
      obtain ⟨hself, hpartner⟩ := log_append_of_unsettled hsettle owner comm
      -- There is no pending record, and the new record is not ready.
      have hnone : ∀ partner settled, ¬ Settles (m.log side.partner) partner settled := by
        intro partner settled hsettles
        rw [settle?_eq_some_iff.2 ⟨partner, hsettles⟩] at hsettle
        cases hsettle
      simp [hself, hpartner, hnone]

end Mailbox

end Interleaving
