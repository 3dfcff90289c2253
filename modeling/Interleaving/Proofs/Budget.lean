import Interleaving.Exploration
import Interleaving.Proofs.Frontier

/-!
# Steps use up the budget

The budget of a state counts the transitions that are not executed and the room in
bounded logs.  In a sound and placed state each step marks one more transition and
makes no log shorter, so the budget falls (`State.budget_lt_of_execute`).  What holds
of a state whenever it holds of all its successors therefore holds of every such state
(`State.successor_induction`).
-/

namespace Interleaving

theorem foldr_insertBy {α : Type} (f : α → Nat) {entries : List (Nat × α)} {key : Nat} {old : α}
    (x : α) (hascending : Ascending Prod.fst entries) (h : (key, old) ∈ entries) :
    ((insertBy Prod.fst (key, x) entries).map Prod.snd).foldr (fun y n => f y + n) 0 + f old =
      (entries.map Prod.snd).foldr (fun y n => f y + n) 0 + f x := by
  induction entries with
  | nil => cases h
  | cons entry rest ih =>
      obtain ⟨k, y⟩ := entry
      obtain ⟨hfirst, hrest⟩ := List.pairwise_cons.1 hascending
      rcases List.mem_cons.1 h with heq | hmem
      · cases heq
        simp only [insertBy, Std.ReflCmp.compare_self, List.map_cons, List.foldr_cons]
        omega
      · -- The entry stands further back, behind a smaller number.
        have hgt : compare key k = .gt := Std.OrientedCmp.gt_of_lt (hfirst _ hmem)
        have hsum := ih hrest hmem
        simp only [insertBy, hgt, List.map_cons, List.foldr_cons]
        omega

namespace Table

variable {α : Type}

/-- The sum of a measure of the values. -/
def total (f : α → Nat) (t : Table α) : Nat := t.values.foldr (fun x n => f x + n) 0

theorem total_insert (f : α → Nat) (t : Table α) {key : Nat} {old : α} (x : α)
    (h : t.get? key = some old) : (t.insert key x).total f + f old = t.total f + f x :=
  foldr_insertBy f x t.ascending ((mem_entries_iff t key old).2 h)

end Table

namespace Actor

/-- Marking a transition leaves one less. -/
theorem remaining_markExecuted {a : Actor} {t : Transition} {index : Nat}
    (h : a.transitions[index]? = some t) (hexecuted : t.executed = false) :
    (a.markExecuted index).remaining + 1 = a.remaining := by
  obtain ⟨hlt, rfl⟩ := List.getElem?_eq_some_iff.1 h
  have hpos : 0 < a.remaining :=
    List.countP_pos_iff.2 ⟨_, List.getElem_mem hlt, by simp [hexecuted]⟩
  rw [markExecuted_eq_set h]
  unfold remaining at hpos ⊢
  rw [List.countP_set hlt]
  simp only [hexecuted, Bool.not_false, if_true, Bool.not_true, Bool.false_eq_true, if_false]
  omega

end Actor

namespace Mailbox

theorem length_of_settle? {records settled : List Record} (h : settle? records = some settled) :
    settled.length = records.length := by
  induction records generalizing settled with
  | nil => cases h
  | cons r rest ih =>
      unfold settle? at h
      split at h
      · cases h
        rfl
      · obtain ⟨settled', hsettled', rfl⟩ := Option.map_eq_some_iff.1 h
        rw [List.length_cons, List.length_cons, ih hsettled']

/-- A post makes its own log longer by one record and the other one not at all. -/
theorem length_log_append (m : Mailbox) (side : Side) (owner : ActorId) (comm : CommId) :
    ((m.append side owner comm).log side).length = (m.log side).length + 1 ∧
      ((m.append side owner comm).log side.partner).length = (m.log side.partner).length := by
  cases h : settle? (m.log side.partner) with
  | none =>
      obtain ⟨hself, hpartner⟩ := log_append_of_unsettled h owner comm
      rw [hself, hpartner]
      simp
  | some settled =>
      obtain ⟨hself, hpartner⟩ := log_append_of_settled h owner comm
      rw [hself, hpartner, length_of_settle? h]
      simp

theorem room_of_capacity {m : Mailbox} {capacity : Nat} (h : m.capacity = some capacity)
    (side : Side) :
    m.room = capacity - (m.log side).length + (capacity - (m.log side.partner).length) := by
  unfold room
  rw [h]
  cases side with
  | send => rfl
  | receive => exact Nat.add_comm _ _

theorem room_append_le (m : Mailbox) (side : Side) (owner : ActorId) (comm : CommId) :
    (m.append side owner comm).room ≤ m.room := by
  cases hcapacity : m.capacity with
  | none => simp [room, hcapacity]
  | some capacity =>
      obtain ⟨hself, hpartner⟩ := m.length_log_append side owner comm
      have hcapacity' := (m.capacity_append side owner comm).trans hcapacity
      rw [room_of_capacity hcapacity side, room_of_capacity hcapacity' side, hself, hpartner]
      omega

end Mailbox

namespace State

variable {s s' : State}

theorem budget_eq (s : State) :
    s.budget = s.actors.total Actor.remaining + s.mailboxes.total Mailbox.room := rfl

theorem total_room_le_of_deliver {t : Transition} {mailboxes : Table Mailbox}
    (h : s.deliver t = .ok mailboxes) :
    mailboxes.total Mailbox.room ≤ s.mailboxes.total Mailbox.room := by
  rcases deliver_eq_ok_cases h with ⟨-, mailbox, -, m, m', -, hm, hupdate, rfl⟩ | ⟨-, rfl⟩
  · obtain ⟨side, comm, -, -, rfl⟩ := Mailbox.update_eq_ok_iff.1 hupdate
    have hle := m.room_append_le side t.owner comm
    have htotal := s.mailboxes.total_insert Mailbox.room (m.append side t.owner comm) hm
    omega
  · exact Nat.le_refl _

/-- A step leaves one transition less to be executed. -/
theorem remaining_of_execute (hplaced : s.IsPlaced) {l : Label} (h : s.execute l = .ok s') :
    s'.actors.total Actor.remaining + 1 = s.actors.total Actor.remaining := by
  obtain ⟨a, t, mailboxes, ha, hoffer, hposition, -, rfl⟩ := execute_eq_ok_iff.1 h
  obtain ⟨hindex, -, hexecuted⟩ :=
    (hplaced l.owner a ha).of_next? (offer?_eq_some_iff.1 hoffer).1
  rw [hposition] at hindex
  have hremaining := Actor.remaining_markExecuted hindex hexecuted
  have htotal := s.actors.total_insert Actor.remaining (a.markExecuted l.position) ha
  show (s.actors.insert l.owner _).total _ + 1 = _
  omega

/-- **One step.**  The budget falls. -/
theorem budget_lt_of_execute (hplaced : s.IsPlaced) {l : Label} (h : s.execute l = .ok s') :
    s'.budget < s.budget := by
  have hremaining := remaining_of_execute hplaced h
  have hroom : s'.mailboxes.total Mailbox.room ≤ s.mailboxes.total Mailbox.room := by
    obtain ⟨a, t, mailboxes, -, -, -, hdeliver, rfl⟩ := execute_eq_ok_iff.1 h
    exact total_room_le_of_deliver hdeliver
  rw [budget_eq, budget_eq]
  omega

/-- What each state inherits from its successors holds of all states. -/
@[elab_as_elim]
theorem successor_induction {motive : State → Prop} (hsound : s.IsSound) (hplaced : s.IsPlaced)
    (step : ∀ s : State, s.IsSound → s.IsPlaced →
      (∀ t ∈ s.enabled, ∀ next, s.execute t.label = .ok next → motive next) → motive s) :
    motive s := by
  induction hbudget : s.budget using Nat.strong_induction_on generalizing s with
  | _ budget ih =>
      subst hbudget
      refine step s hsound hplaced fun t _ next h => ?_
      exact ih next.budget (budget_lt_of_execute hplaced h) (hsound.execute h)
        (hplaced.execute h) rfl

end State

end Interleaving
