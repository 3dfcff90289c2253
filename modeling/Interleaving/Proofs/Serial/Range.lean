import Interleaving.Proofs.Json.Numeral
import Interleaving.Proofs.Matching
import Interleaving.Proofs.Step
import Interleaving.Serial

/-!
# Numbers that fit

JSON text holds natural numbers below a limit.  Whatever is read from a text therefore has only
numbers that fit, and no step brings in a number that was not there before
(`State.numbers_subset_of_execute`): all states reached from a loaded one can be written and
read again.
-/

namespace Interleaving

/-! ### The numbers in a value -/

/-- All numbers are below the limit. -/
def Json.Number.Fit (ns : List Nat) : Prop := ∀ n ∈ ns, n < limit

instance (ns : List Nat) : Decidable (Json.Number.Fit ns) :=
  inferInstanceAs (Decidable (∀ n ∈ ns, n < Json.Number.limit))

/-- The numbers that an action names. -/
def Action.numbers : Action → List Nat
  | post _ mailbox comm => [mailbox, comm]
  | wait mailbox comm => [mailbox, comm]
  | lock mutex => [mutex]
  | unlock mutex => [mutex]
  | mutexWait => []
  | mutexTest => []
  | access var _ => [var]

/-- The numbers of a transition and of its action. -/
def Transition.numbers (t : Transition) : List Nat := t.position :: t.owner :: t.action.numbers

/-- The numbers of a trace's transitions. -/
def Trace.numbers (w : Trace) : List Nat := w.flatMap Transition.numbers

/-- The numbers of an actor and of its transitions. -/
def Actor.numbers (a : Actor) : List Nat := a.id :: a.transitions.flatMap Transition.numbers

/-- The numbers of a record. -/
def Record.numbers (r : Record) : List Nat := [r.owner, r.comm]

/-- The numbers of a mailbox, of its records and of its bound. -/
def Mailbox.numbers (m : Mailbox) : List Nat :=
  m.id :: ((m.sends ++ m.receives).flatMap Record.numbers ++ m.capacity.toList)

/-- The numbers in bounds. -/
def Bounds.numbers (b : Bounds) : List Nat := b.actorLength.toList ++ b.logLength.toList

/-- The numbers of a state's actors and mailboxes. -/
def State.numbers (s : State) : List Nat :=
  s.actors.values.flatMap Actor.numbers ++ s.mailboxes.values.flatMap Mailbox.numbers

namespace Json.Number

variable {α : Type} {ns ms : List Nat}

@[simp] theorem fit_nil : Fit [] := fun _ hn => absurd hn List.not_mem_nil

@[simp] theorem fit_cons {n : Nat} : Fit (n :: ns) ↔ n < limit ∧ Fit ns := List.forall_mem_cons

@[simp] theorem fit_append : Fit (ns ++ ms) ↔ Fit ns ∧ Fit ms := List.forall_mem_append

theorem fit_flatMap {xs : List α} {f : α → List Nat} :
    Fit (xs.flatMap f) ↔ ∀ x ∈ xs, Fit (f x) := by
  unfold Fit
  simp only [List.mem_flatMap, forall_exists_index, and_imp]
  exact ⟨fun h x hx n hn => h n x hx hn, fun h n x hx hn => h x hx n hn⟩

@[simp] theorem fit_toList {o : Option Nat} : Fit o.toList ↔ ∀ n ∈ o, n < limit := by
  cases o <;> simp [Fit]

end Json.Number

/-! ### What is read fits -/

open Json.Number (Fit)

namespace Json

variable {α β : Type}

theorem lt_of_nat? {v : Json} {n : Nat} (h : v.nat? = some n) : n < Number.limit := by
  unfold nat? at h
  split at h
  case h_1 => exact Number.lt_of_natural? h
  case h_2 => cases h

theorem lt_of_optionalNat? {v : Json} {o : Option Nat} (h : v.optionalNat? = some o) :
    ∀ n ∈ o, n < Number.limit := by
  unfold optionalNat? at h
  split at h
  case h_1 =>
    cases h
    simp
  case h_2 =>
    obtain ⟨n, hn, rfl⟩ := Option.map_eq_some_iff.1 h
    simpa using lt_of_nat? hn

/-- What is read from a list is read from its elements one by one. -/
theorem exists_of_mem_mapM {read? : β → Option α} {vs : List β} {xs : List α}
    (h : vs.mapM read? = some xs) {x : α} (hx : x ∈ xs) : ∃ v ∈ vs, read? v = some x := by
  induction vs generalizing xs with
  | nil =>
      cases h
      cases hx
  | cons v rest ih =>
      rw [List.mapM_cons] at h
      obtain ⟨y, hy, h⟩ := Option.bind_eq_some_iff.1 h
      obtain ⟨ys, hys, h⟩ := Option.bind_eq_some_iff.1 h
      cases h
      rcases List.mem_cons.1 hx with rfl | hx
      · exact ⟨v, List.mem_cons_self, hy⟩
      · obtain ⟨w, hw, hread⟩ := ih hys hx
        exact ⟨w, List.mem_cons_of_mem _ hw, hread⟩

theorem exists_of_mem_list? {read? : Json → Option α} {v : Json} {xs : List α}
    (h : v.list? read? = some xs) {x : α} (hx : x ∈ xs) : ∃ w, read? w = some x := by
  unfold list? at h
  split at h
  case h_1 =>
    obtain ⟨w, -, hread⟩ := exists_of_mem_mapM h hx
    exact ⟨w, hread⟩
  case h_2 => cases h

theorem exists_of_mem_table? {read? : Json → Option α} {v : Json} {entries : List (Nat × α)}
    (h : v.table? read? = some entries) {entry : Nat × α} (hentry : entry ∈ entries) :
    ∃ w, read? w = some entry.2 := by
  unfold table? at h
  split at h
  case h_1 =>
    obtain ⟨⟨raw, w⟩, -, hread⟩ := exists_of_mem_mapM h hentry
    obtain ⟨key, -, hread⟩ := Option.bind_eq_some_iff.1 hread
    obtain ⟨x, hx, hread⟩ := Option.bind_eq_some_iff.1 hread
    cases hread
    exact ⟨w, hx⟩
  case h_2 => cases h

end Json

theorem Action.fit_of_commParts? {v : Json} {mailbox : MailboxId} {comm : CommId}
    (h : commParts? v = some (mailbox, comm)) : Fit [mailbox, comm] := by
  unfold commParts? at h
  split at h
  case h_1 =>
    obtain ⟨m, hm, h⟩ := Option.bind_eq_some_iff.1 h
    obtain ⟨c, hc, h⟩ := Option.bind_eq_some_iff.1 h
    cases h
    simp [Json.lt_of_nat? hm, Json.lt_of_nat? hc]
  case h_2 => cases h

theorem Action.lt_of_mutexPart? {v : Json} {mutex : MutexId} (h : mutexPart? v = some mutex) :
    mutex < Json.Number.limit := by
  unfold mutexPart? at h
  split at h
  case h_1 => exact Json.lt_of_nat? h
  case h_2 => cases h

theorem Action.lt_of_accessParts? {v : Json} {var : VariableId} {mode : AccessMode}
    (h : accessParts? v = some (var, mode)) : var < Json.Number.limit := by
  unfold accessParts? at h
  split at h
  case h_1 =>
    obtain ⟨n, hn, h⟩ := Option.bind_eq_some_iff.1 h
    obtain ⟨_, -, h⟩ := Option.bind_eq_some_iff.1 h
    cases h
    exact Json.lt_of_nat? hn
  case h_2 => cases h

theorem Action.fit_of_ofJson? {v : Json} {action : Action} (h : ofJson? v = some action) :
    Fit action.numbers := by
  unfold ofJson? at h
  split at h
  case h_1 | h_2 | h_3 =>
    obtain ⟨⟨mailbox, comm⟩, hparts, rfl⟩ := Option.map_eq_some_iff.1 h
    exact fit_of_commParts? hparts
  case h_4 | h_5 =>
    obtain ⟨mutex, hpart, rfl⟩ := Option.map_eq_some_iff.1 h
    simp [numbers, lt_of_mutexPart? hpart]
  case h_6 | h_7 =>
    obtain ⟨-, h⟩ := Option.ite_none_right_eq_some.1 h
    cases h
    simp [numbers]
  case h_8 =>
    obtain ⟨⟨var, mode⟩, hparts, rfl⟩ := Option.map_eq_some_iff.1 h
    simp [numbers, lt_of_accessParts? hparts]
  case h_9 => cases h

theorem Transition.fit_of_ofJson? {v : Json} {t : Transition} (h : ofJson? v = some t) :
    Fit t.numbers := by
  unfold ofJson? at h
  split at h
  case h_1 =>
    obtain ⟨position, hposition, h⟩ := Option.bind_eq_some_iff.1 h
    obtain ⟨owner, howner, h⟩ := Option.bind_eq_some_iff.1 h
    obtain ⟨action, haction, h⟩ := Option.bind_eq_some_iff.1 h
    obtain ⟨executed, -, h⟩ := Option.bind_eq_some_iff.1 h
    cases h
    simp [numbers, Json.lt_of_nat? hposition, Json.lt_of_nat? howner,
      Action.fit_of_ofJson? haction]
  case h_2 => cases h

theorem Actor.fit_of_ofJson? {v : Json} {a : Actor} (h : ofJson? v = some a) : Fit a.numbers := by
  unfold ofJson? at h
  split at h
  case h_1 =>
    obtain ⟨id, hid, h⟩ := Option.bind_eq_some_iff.1 h
    obtain ⟨transitions, htransitions, h⟩ := Option.bind_eq_some_iff.1 h
    cases h
    refine Json.Number.fit_cons.2 ⟨Json.lt_of_nat? hid, Json.Number.fit_flatMap.2 fun t ht => ?_⟩
    obtain ⟨w, hw⟩ := Json.exists_of_mem_list? htransitions ht
    exact Transition.fit_of_ofJson? hw
  case h_2 => cases h

theorem Record.fit_of_ofJson? {v : Json} {r : Record} (h : ofJson? v = some r) :
    Fit r.numbers := by
  unfold ofJson? at h
  split at h
  case h_1 =>
    obtain ⟨owner, howner, h⟩ := Option.bind_eq_some_iff.1 h
    obtain ⟨comm, hcomm, h⟩ := Option.bind_eq_some_iff.1 h
    obtain ⟨status, -, h⟩ := Option.bind_eq_some_iff.1 h
    cases h
    simp [numbers, Json.lt_of_nat? howner, Json.lt_of_nat? hcomm]
  case h_2 => cases h

theorem Mailbox.fit_of_ofJson? {v : Json} {m : Mailbox} (h : ofJson? v = some m) :
    Fit m.numbers := by
  unfold ofJson? at h
  split at h
  case h_1 =>
    obtain ⟨id, hid, h⟩ := Option.bind_eq_some_iff.1 h
    obtain ⟨sends, hsends, h⟩ := Option.bind_eq_some_iff.1 h
    obtain ⟨receives, hreceives, h⟩ := Option.bind_eq_some_iff.1 h
    obtain ⟨capacity, hcapacity, h⟩ := Option.bind_eq_some_iff.1 h
    cases h
    refine Json.Number.fit_cons.2 ⟨Json.lt_of_nat? hid, Json.Number.fit_append.2
      ⟨Json.Number.fit_flatMap.2 fun r hr => ?_,
        Json.Number.fit_toList.2 (Json.lt_of_optionalNat? hcapacity)⟩⟩
    rcases List.mem_append.1 hr with hr | hr
    · obtain ⟨w, hw⟩ := Json.exists_of_mem_list? hsends hr
      exact Record.fit_of_ofJson? hw
    · obtain ⟨w, hw⟩ := Json.exists_of_mem_list? hreceives hr
      exact Record.fit_of_ofJson? hw
  case h_2 => cases h

namespace State

variable {s s' : State}

theorem mem_numbers_iff {n : Nat} : n ∈ s.numbers ↔
    (∃ id a, s.actors.get? id = some a ∧ n ∈ a.numbers) ∨
      ∃ id m, s.mailboxes.get? id = some m ∧ n ∈ m.numbers := by
  simp only [numbers, List.mem_append, List.mem_flatMap, Table.mem_values_iff, ← exists_and_right]
  rw [exists_comm, exists_comm (α := Mailbox)]

theorem exists_of_ofText {text : String} (h : ofText text = .ok s) : ∃ v actors mailboxes,
    tables? v = some (actors, mailboxes) ∧ ofTables actors mailboxes = .ok s := by
  unfold ofText at h
  split at h
  case h_1 => cases h
  case h_2 v rest _ =>
    split at h
    case h_1 => cases h
    case h_2 actors mailboxes htables =>
      split at h
      case h_1 => cases h
      case h_2 hstate =>
        split at h
        case isFalse => cases h
        case isTrue =>
          cases h
          exact ⟨v, actors, mailboxes, htables, hstate⟩

/-- The numbers in a state that a text holds fit. -/
theorem fit_of_ofText {text : String} (h : ofText text = .ok s) : Fit s.numbers := by
  obtain ⟨v, actors, mailboxes, htables, hstate⟩ := exists_of_ofText h
  unfold tables? at htables
  split at htables
  case h_2 => cases htables
  case h_1 =>
    obtain ⟨actorEntries, hactors, htables⟩ := Option.bind_eq_some_iff.1 htables
    obtain ⟨mailboxEntries, hmailboxes, htables⟩ := Option.bind_eq_some_iff.1 htables
    cases htables
    obtain ⟨-, rfl⟩ := ofTables_eq_ok_iff.1 hstate
    intro n hn
    rcases mem_numbers_iff.1 hn with ⟨id, a, ha, hn⟩ | ⟨id, m, hm, hn⟩
    · obtain ⟨w, hw⟩ := Json.exists_of_mem_table? hactors (Table.mem_of_get?_ofList ha)
      exact Actor.fit_of_ofJson? hw n hn
    · obtain ⟨w, hw⟩ := Json.exists_of_mem_table? hmailboxes (Table.mem_of_get?_ofList hm)
      exact Mailbox.fit_of_ofJson? hw n hn

theorem isObtained_of_ofText {text : String} (h : ofText text = .ok s) : s.IsObtained := by
  obtain ⟨-, actors, mailboxes, -, hstate⟩ := exists_of_ofText h
  exact .loaded hstate

end State

/-! ### Steps bring in no new number -/

theorem Actor.numbers_markExecuted (a : Actor) (index : Nat) :
    (a.markExecuted index).numbers = a.numbers := by
  have hsame : (a.markExecuted index).transitions.map Transition.numbers =
      a.transitions.map Transition.numbers := by
    apply List.ext_getElem?
    intro i
    rw [List.getElem?_map, List.getElem?_map, getElem?_markExecuted, Option.map_map]
    congr 1
    funext t
    show Transition.numbers (if _ then _ else t) = _
    split <;> rfl
  unfold numbers
  rw [List.flatMap_def, List.flatMap_def, hsame]
  rfl

namespace Mailbox

theorem mem_numbers_iff {m : Mailbox} {n : Nat} : n ∈ m.numbers ↔
    n = m.id ∨ (∃ side, n ∈ (m.log side).flatMap Record.numbers) ∨ n ∈ m.capacity.toList := by
  have hsides : (∃ side, n ∈ (m.log side).flatMap Record.numbers) ↔
      n ∈ m.sends.flatMap Record.numbers ∨ n ∈ m.receives.flatMap Record.numbers := by
    constructor
    · rintro ⟨side, hn⟩
      cases side
      · exact .inl hn
      · exact .inr hn
    · rintro (hn | hn)
      · exact ⟨.send, hn⟩
      · exact ⟨.receive, hn⟩
  rw [hsides, numbers, List.mem_cons, List.mem_append, List.flatMap_append, List.mem_append]

theorem numbers_of_settle? {records settled : List Record} (h : settle? records = some settled) :
    settled.flatMap Record.numbers = records.flatMap Record.numbers := by
  obtain ⟨partner, older, newer, rfl, -, -, rfl⟩ := settle?_eq_some_iff.1 h
  rw [List.flatMap_append, List.flatMap_append, List.flatMap_cons, List.flatMap_cons]
  rfl

/-- A post brings in the numbers of its record only. -/
theorem mem_numbers_of_append {m : Mailbox} {side : Side} {owner : ActorId} {comm : CommId}
    {n : Nat} (h : n ∈ (m.append side owner comm).numbers) :
    n = owner ∨ n = comm ∨ n ∈ m.numbers := by
  have hlogs : ((m.append side owner comm).log side).flatMap Record.numbers =
        (m.log side).flatMap Record.numbers ++ [owner, comm] ∧
      ((m.append side owner comm).log side.partner).flatMap Record.numbers =
        (m.log side.partner).flatMap Record.numbers := by
    cases hsettle : settle? (m.log side.partner) with
    | some settled =>
        obtain ⟨hself, hpartner⟩ := log_append_of_settled hsettle owner comm
        rw [hself, hpartner, List.flatMap_append, numbers_of_settle? hsettle]
        exact ⟨rfl, rfl⟩
    | none =>
        obtain ⟨hself, hpartner⟩ := log_append_of_unsettled hsettle owner comm
        rw [hself, hpartner, List.flatMap_append]
        exact ⟨rfl, rfl⟩
  rw [mem_numbers_iff, id_append, capacity_append] at h
  rcases h with hid | ⟨other, hn⟩ | hcapacity
  · exact .inr (.inr (mem_numbers_iff.2 (.inl hid)))
  · rcases side.eq_or_eq_partner other with rfl | rfl
    · rw [hlogs.1, List.mem_append] at hn
      rcases hn with hn | hn
      · exact .inr (.inr (mem_numbers_iff.2 (.inr (.inl ⟨_, hn⟩))))
      · rcases List.mem_pair.1 hn with rfl | rfl
        · exact .inl rfl
        · exact .inr (.inl rfl)
    · rw [hlogs.2] at hn
      exact .inr (.inr (mem_numbers_iff.2 (.inr (.inl ⟨_, hn⟩))))
  · exact .inr (.inr (mem_numbers_iff.2 (.inr (.inr hcapacity))))

end Mailbox

namespace State

variable {s s' : State}

/-- **One step.**  The numbers of the new state are numbers of the old one. -/
theorem numbers_subset_of_execute {l : Label} (h : s.execute l = .ok s') :
    s'.numbers ⊆ s.numbers := by
  obtain ⟨a, t, mailboxes, ha, hoffer, -, hdeliver, rfl⟩ := execute_eq_ok_iff.1 h
  have hactor : a.numbers ⊆ s.numbers := fun n hn => mem_numbers_iff.2 (.inl ⟨_, a, ha, hn⟩)
  -- The fired transition stands in the actor, so its owner and communication are there.
  have hfired : t.numbers ⊆ s.numbers := fun n hn =>
    hactor (List.mem_cons_of_mem _ (List.mem_flatMap.2 ⟨t, mem_of_offer? hoffer, hn⟩))
  intro n hn
  rcases mem_numbers_iff.1 hn with ⟨id, b, hb, hn⟩ | ⟨id, m, hm, hn⟩
  · rw [Table.get?_insert] at hb
    split at hb
    case isTrue =>
      cases hb
      rw [Actor.numbers_markExecuted] at hn
      exact hactor hn
    case isFalse => exact mem_numbers_iff.2 (.inl ⟨id, b, hb, hn⟩)
  · rcases get?_of_deliver hdeliver id with
      ⟨side, comm, old, new, haction, hold, hupdate, hnew⟩ | ⟨-, hsame⟩
    · rw [hnew, Option.some.injEq] at hm
      subst hm
      obtain ⟨side', comm', haction', -, rfl⟩ := Mailbox.update_eq_ok_iff.1 hupdate
      rcases Mailbox.mem_numbers_of_append hn with rfl | rfl | hn
      · exact hfired (by simp [Transition.numbers])
      · exact hfired (by simp [Transition.numbers, Action.numbers, haction'])
      · exact mem_numbers_iff.2 (.inr ⟨id, old, hold, hn⟩)
    · exact mem_numbers_iff.2 (.inr ⟨id, m, hsame ▸ hm, hn⟩)

/-- What a run reaches from numbers that fit has numbers that fit. -/
theorem fit_of_replay (hs : Fit s.numbers) {w : Trace} (h : w.replay s = .ok s') :
    Fit s'.numbers :=
  replay_induction (motive := fun s => Fit s.numbers)
    (fun hs hstep n hn => hs n (numbers_subset_of_execute hstep hn)) hs h

end State

end Interleaving
