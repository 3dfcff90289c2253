import Interleaving.Proofs.Matching
import Interleaving.Proofs.Step

/-!
# What steps keep of the past

Steps add to a state and take nothing back, whatever the marks and logs of the state are:
`State.Extends` says what a later state has in common with an earlier one.  It is a preorder,
one step respects it (`State.extends_of_execute`), and so does every run.  A match makes one
record ready on each side, so the sides of a mailbox keep their balance (`Mailbox.balance`),
also when records are pending on both of them.
-/

namespace Interleaving

/-- All elements of `xs` are at their places in `ys`, changed in a way that `rel` allows. -/
def KeepsPlaces {α : Type} (rel : α → α → Prop) (xs ys : List α) : Prop :=
  ∀ (index : Nat) (x : α), xs[index]? = some x → ∃ y, ys[index]? = some y ∧ rel x y

namespace KeepsPlaces

variable {α : Type} {rel : α → α → Prop} {xs ys zs : List α}

theorem length_le (h : KeepsPlaces rel xs ys) : xs.length ≤ ys.length := by
  by_contra hlt
  have hindex : ys.length < xs.length := by omega
  obtain ⟨y, hy, -⟩ := h ys.length xs[ys.length] (List.getElem?_eq_getElem hindex)
  simp at hy

theorem append_right (hrefl : ∀ x, rel x x) (xs ys : List α) : KeepsPlaces rel xs (xs ++ ys) := by
  intro index x hx
  have hindex : index < xs.length := (List.getElem?_eq_some_iff.1 hx).1
  exact ⟨x, by rw [List.getElem?_append_left hindex, hx], hrefl x⟩

theorem refl (hrefl : ∀ x, rel x x) (xs : List α) : KeepsPlaces rel xs xs :=
  fun _ x hx => ⟨x, hx, hrefl x⟩

theorem trans (htrans : ∀ {x y z}, rel x y → rel y z → rel x z) (h : KeepsPlaces rel xs ys)
    (h' : KeepsPlaces rel ys zs) : KeepsPlaces rel xs zs := by
  intro index x hx
  obtain ⟨y, hy, hxy⟩ := h index x hx
  obtain ⟨z, hz, hyz⟩ := h' index y hy
  exact ⟨z, hz, htrans hxy hyz⟩

theorem cons {x y : α} (hxy : rel x y) (h : KeepsPlaces rel xs ys) :
    KeepsPlaces rel (x :: xs) (y :: ys) := by
  intro index z hz
  cases index with
  | zero =>
      cases hz
      exact ⟨y, rfl, hxy⟩
  | succ index => exact h index z hz

end KeepsPlaces

/-! ### Records and mailboxes -/

namespace Record

/-- The same record later on: a pending one may have become ready, and that is all. -/
structure Advances (r r' : Record) : Prop where
  owner_eq : r'.owner = r.owner
  comm_eq : r'.comm = r.comm
  status : r'.status = r.status ∨ r.status = .pending ∧ r'.status = .ready

theorem Advances.refl (r : Record) : r.Advances r := ⟨rfl, rfl, .inl rfl⟩

theorem Advances.trans {r r' r'' : Record} (h : r.Advances r') (h' : r'.Advances r'') :
    r.Advances r'' where
  owner_eq := h'.owner_eq.trans h.owner_eq
  comm_eq := h'.comm_eq.trans h.comm_eq
  status := by
    rcases h.status with hsame | ⟨hpending, hready⟩
    · rw [← hsame]
      exact h'.status
    · -- A record that is ready stays so.
      rcases h'.status with hsame | ⟨hpending', -⟩
      · exact .inr ⟨hpending, hsame.trans hready⟩
      · rw [hready] at hpending'
        cases hpending'

end Record

/-- How many records of a log are ready. -/
def readyCount (records : List Record) : Nat := records.countP fun r => r.status = .ready

namespace Mailbox

/-- How many sends are ready beyond the receives that are. -/
def balance (m : Mailbox) : Int := (readyCount (m.log .send) : Int) - readyCount (m.log .receive)

/-- The same mailbox later on: its logs may be longer and some of their records ready, but no
more on one side than on the other. -/
structure Advances (m m' : Mailbox) : Prop where
  id_eq : m'.id = m.id
  capacity_eq : m'.capacity = m.capacity
  length_le : ∀ side, (m.log side).length ≤ (m'.log side).length
  records : ∀ side, KeepsPlaces Record.Advances (m.log side) (m'.log side)
  balance_eq : m'.balance = m.balance

theorem Advances.refl (m : Mailbox) : m.Advances m :=
  ⟨rfl, rfl, fun _ => Nat.le_refl _, fun _ => .refl .refl _, rfl⟩

theorem Advances.trans {m m' m'' : Mailbox} (h : m.Advances m') (h' : m'.Advances m'') :
    m.Advances m'' where
  id_eq := h'.id_eq.trans h.id_eq
  capacity_eq := h'.capacity_eq.trans h.capacity_eq
  length_le side := (h.length_le side).trans (h'.length_le side)
  records side := (h.records side).trans .trans (h'.records side)
  balance_eq := h'.balance_eq.trans h.balance_eq

/-- Settling a log keeps its records at their places, and makes one more of them ready. -/
theorem keepsPlaces_of_settle? {records settled : List Record}
    (h : settle? records = some settled) :
    KeepsPlaces Record.Advances records settled ∧
      readyCount settled = readyCount records + 1 := by
  -- Induction along the scan, which stops at the first record that is pending.
  induction records generalizing settled with
  | nil => cases h
  | cons r rest ih =>
      unfold settle? at h
      split at h
      case h_1 hpending =>
        cases h
        refine ⟨.cons ⟨rfl, rfl, .inr ⟨hpending, rfl⟩⟩ (.refl .refl rest), ?_⟩
        simp [readyCount, hpending]
      case h_2 hready =>
        obtain ⟨settled', hsettled', rfl⟩ := Option.map_eq_some_iff.1 h
        obtain ⟨hplaces, hcount⟩ := ih hsettled'
        refine ⟨.cons (.refl r) hplaces, ?_⟩
        unfold readyCount at hcount ⊢
        rw [List.countP_cons_of_pos (by simp [hready]), List.countP_cons_of_pos (by simp [hready]),
          hcount]

/-- A post keeps the records of both sides at their places.  If it is matched, one more of them
is ready on each side. -/
theorem keepsPlaces_append (m : Mailbox) (side : Side) (owner : ActorId) (comm : CommId) :
    KeepsPlaces Record.Advances (m.log side) ((m.append side owner comm).log side) ∧
      KeepsPlaces Record.Advances (m.log side.partner)
        ((m.append side owner comm).log side.partner) ∧
      readyCount ((m.append side owner comm).log side) + readyCount (m.log side.partner) =
        readyCount (m.log side) + readyCount ((m.append side owner comm).log side.partner) := by
  cases hsettle : settle? (m.log side.partner) with
  | some settled =>
      obtain ⟨hself, hpartner⟩ := log_append_of_settled hsettle owner comm
      obtain ⟨hplaces, hcount⟩ := keepsPlaces_of_settle? hsettle
      rw [hself, hpartner, hcount]
      refine ⟨.append_right .refl _ _, hplaces, ?_⟩
      simp only [readyCount, List.countP_append, List.countP_singleton, decide_true, if_true]
      omega
  | none =>
      obtain ⟨hself, hpartner⟩ := log_append_of_unsettled hsettle owner comm
      rw [hself, hpartner]
      refine ⟨.append_right .refl _ _, .refl .refl _, ?_⟩
      simp [readyCount]

/-- **One post.**  The mailbox advances, whatever its logs are. -/
theorem advances_append (m : Mailbox) (side : Side) (owner : ActorId) (comm : CommId) :
    m.Advances (m.append side owner comm) := by
  obtain ⟨hown, hother, hcount⟩ := m.keepsPlaces_append side owner comm
  have hrecords : ∀ other, KeepsPlaces Record.Advances (m.log other)
      ((m.append side owner comm).log other) := by
    intro other
    rcases side.eq_or_eq_partner other with rfl | rfl
    · exact hown
    · exact hother
  refine ⟨id_append .., capacity_append .., fun other => (hrecords other).length_le, hrecords, ?_⟩
  unfold balance
  cases side with
  | send =>
      simp only [Side.partner] at hcount
      omega
  | receive =>
      simp only [Side.partner] at hcount
      omega

theorem advances_of_update {m m' : Mailbox} {t : Transition} (h : m.update t = .ok m') :
    m.Advances m' := by
  obtain ⟨side, comm, -, -, rfl⟩ := update_eq_ok_iff.1 h
  exact m.advances_append side t.owner comm

end Mailbox

/-! ### Transitions and actors -/

namespace Transition

/-- The same transition later on: it may be executed now. -/
structure Advances (t t' : Transition) : Prop where
  label_eq : t'.label = t.label
  action_eq : t'.action = t.action
  executed : t.executed = true → t'.executed = true

theorem Advances.refl (t : Transition) : t.Advances t := ⟨rfl, rfl, fun h => h⟩

theorem Advances.trans {t t' t'' : Transition} (h : t.Advances t') (h' : t'.Advances t'') :
    t.Advances t'' where
  label_eq := h'.label_eq.trans h.label_eq
  action_eq := h'.action_eq.trans h.action_eq
  executed hexecuted := h'.executed (h.executed hexecuted)

end Transition

namespace Actor

/-- The same actor later on: more of its transitions may be executed. -/
structure Advances (a a' : Actor) : Prop where
  id_eq : a'.id = a.id
  length_eq : a'.length = a.length
  transitions : KeepsPlaces Transition.Advances a.transitions a'.transitions

theorem Advances.refl (a : Actor) : a.Advances a := ⟨rfl, rfl, .refl .refl _⟩

theorem Advances.trans {a a' a'' : Actor} (h : a.Advances a') (h' : a'.Advances a'') :
    a.Advances a'' where
  id_eq := h'.id_eq.trans h.id_eq
  length_eq := h'.length_eq.trans h.length_eq
  transitions := h.transitions.trans .trans h'.transitions

/-- A mark sets at most one flag, and clears none. -/
theorem advances_markExecuted (a : Actor) (position : Nat) :
    a.Advances (a.markExecuted position) where
  id_eq := rfl
  length_eq := List.length_modify ..
  transitions index t ht := by
    refine ⟨_, by rw [getElem?_markExecuted, ht, Option.map_some], ?_⟩
    split
    · exact ⟨rfl, rfl, fun _ => rfl⟩
    · exact .refl t

end Actor

/-! ### States -/

namespace State

variable {s s' s'' : State}

/-- `s'` is `s` later on: the same actors and mailboxes are under the same numbers, and all of
them have advanced. -/
structure Extends (s s' : State) : Prop where
  actor_keys : s'.actors.keys = s.actors.keys
  mailbox_keys : s'.mailboxes.keys = s.mailboxes.keys
  actor : ∀ {id a}, s.actors.get? id = some a →
    ∃ a', s'.actors.get? id = some a' ∧ a.Advances a'
  mailbox : ∀ {id m}, s.mailboxes.get? id = some m →
    ∃ m', s'.mailboxes.get? id = some m' ∧ m.Advances m'

theorem Extends.refl (s : State) : s.Extends s :=
  ⟨rfl, rfl, fun {_ a} ha => ⟨a, ha, .refl a⟩, fun {_ m} hm => ⟨m, hm, .refl m⟩⟩

theorem Extends.trans (h : s.Extends s') (h' : s'.Extends s'') : s.Extends s'' where
  actor_keys := h'.actor_keys.trans h.actor_keys
  mailbox_keys := h'.mailbox_keys.trans h.mailbox_keys
  actor ha := by
    obtain ⟨a', ha', hadvances⟩ := h.actor ha
    obtain ⟨a'', ha'', hadvances'⟩ := h'.actor ha'
    exact ⟨a'', ha'', hadvances.trans hadvances'⟩
  mailbox hm := by
    obtain ⟨m', hm', hadvances⟩ := h.mailbox hm
    obtain ⟨m'', hm'', hadvances'⟩ := h'.mailbox hm'
    exact ⟨m'', hm'', hadvances.trans hadvances'⟩

theorem keys_of_deliver {t : Transition} {mailboxes : Table Mailbox}
    (h : s.deliver t = .ok mailboxes) : mailboxes.keys = s.mailboxes.keys := by
  rcases deliver_eq_ok_cases h with ⟨-, mailbox, -, m, m', -, hm, -, rfl⟩ | ⟨-, rfl⟩
  · exact Table.keys_insert _ _ hm
  · rfl

/-- **One step.**  Nothing of the past is lost in any state. -/
theorem extends_of_execute {l : Label} (h : s.execute l = .ok s') : s.Extends s' := by
  obtain ⟨a, t, mailboxes, ha, -, -, hdeliver, rfl⟩ := execute_eq_ok_iff.1 h
  refine ⟨Table.keys_insert _ _ ha, keys_of_deliver hdeliver, fun {id b} hb => ?_,
    fun {id m} hm => ?_⟩
  · show ∃ b', (s.actors.insert l.owner _).get? id = some b' ∧ b.Advances b'
    rw [Table.get?_insert]
    by_cases hid : id = l.owner
    · subst hid
      rw [ha, Option.some.injEq] at hb
      subst hb
      exact ⟨_, if_pos rfl, a.advances_markExecuted l.position⟩
    · exact ⟨b, by rw [if_neg hid, hb], .refl b⟩
  · show ∃ m', mailboxes.get? id = some m' ∧ m.Advances m'
    rcases get?_of_deliver hdeliver id with ⟨-, -, n, n', -, hn, hupdate, hn'⟩ | ⟨-, hsame⟩
    · rw [hm, Option.some.injEq] at hn
      subst hn
      exact ⟨n', hn', Mailbox.advances_of_update hupdate⟩
    · exact ⟨m, hsame.trans hm, .refl m⟩

/-- **Nothing of the past is lost.**  A state that a run reaches has the actors and mailboxes of
the state where the run began, whatever that was: executed transitions stay executed, logs keep
their records, ready records stay ready, and in each mailbox as many sends as receives became
ready. -/
theorem extends_of_replay {w : Trace} (h : w.replay s = .ok s') : s.Extends s' :=
  replay_induction (motive := fun s' => s.Extends s')
    (fun hs hstep => hs.trans (extends_of_execute hstep)) (.refl s) h

/-- An actor whose second transition is executed and its first one is not, a mailbox with pending
records on both sides, and one whose log is longer than its capacity. -/
def disordered : State :=
  ofParts
    [⟨3, [⟨⟨0, 3⟩, .post .send 1 0, false⟩, ⟨⟨1, 3⟩, .wait 2 0, true⟩]⟩]
    [⟨1, [⟨9, 0, .pending⟩], [⟨9, 8, .ready⟩, ⟨9, 9, .pending⟩], none⟩,
      ⟨2, [⟨9, 0, .pending⟩], [], some 0⟩]

/-- The send is matched with the pending receive, and the pending send stays as it is. -/
theorem disordered_extends :
    ∃ s, Trace.replay [⟨⟨0, 3⟩, .post .send 1 0, false⟩] disordered = .ok s ∧
      s.mailboxes.get? 1 = some ⟨1, [⟨9, 0, .pending⟩, ⟨3, 0, .ready⟩],
        [⟨9, 8, .ready⟩, ⟨9, 9, .ready⟩], none⟩ ∧
      disordered.Extends s := by
  obtain ⟨s, hs⟩ : ∃ s, Trace.replay [⟨⟨0, 3⟩, .post .send 1 0, false⟩] disordered = .ok s :=
    ⟨_, rfl⟩
  have hextends := extends_of_replay hs
  cases hs
  exact ⟨_, rfl, rfl, hextends⟩

end State

end Interleaving
