import Interleaving.Proofs.Budget
import Interleaving.Proofs.Queueing

/-!
# Posts on opposite sides

A send and a receive are posted to one mailbox, with any records in its logs.  Each of them
settles the oldest pending record that it finds on the other side, which for the second one may be
the first one.  Both logs afterwards are given by a formula in which the order does not occur
(`Mailbox.log_append_append`).  Neither post takes room from the other one, so the order changes
neither what the mailbox holds in the end nor what the callers are told
(`Mailbox.opposite_posts_commute`).
-/

namespace Interleaving

namespace Mailbox

/-! ### Pending records of a log -/

/-- Whether a record of the log has no partner yet. -/
def hasPending (records : List Record) : Bool := records.any fun r => r.status = .pending

/-- The log with its oldest pending record made ready; without such a record it stays as it is. -/
def settled (records : List Record) : List Record := (settle? records).getD records

theorem hasPending_append_singleton (records : List Record) (r : Record) :
    hasPending (records ++ [r]) = (hasPending records || r.status = .pending) := by
  simp [hasPending]

theorem isSome_settle? (records : List Record) :
    (settle? records).isSome = hasPending records := by
  induction records with
  | nil => rfl
  | cons r rest ih =>
      unfold hasPending at ih ⊢
      cases hstatus : r.status with
      | pending => simp [settle?, hstatus]
      | ready => simp [settle?, hstatus, ih]

theorem settled_cons_of_pending {r : Record} (h : r.status = .pending) (rest : List Record) :
    settled (r :: rest) = { r with status := .ready } :: rest := by
  simp [settled, settle?, h]

theorem settled_cons_of_ready {r : Record} (h : r.status = .ready) (rest : List Record) :
    settled (r :: rest) = r :: settled rest := by
  cases hsettle : settle? rest <;> simp [settled, settle?, h, hsettle]

/-- The newest record is ready afterwards, unless an older one is settled in its place. -/
theorem settled_append_singleton (records : List Record) (r : Record) :
    settled (records ++ [r]) = settled records ++
      [if hasPending records then r else { r with status := .ready }] := by
  -- Induction along the scan, which stops at the first record that is pending.
  induction records with
  | nil =>
      obtain ⟨owner, comm, status⟩ := r
      cases status <;> rfl
  | cons first rest ih =>
      rw [List.cons_append]
      cases hstatus : first.status with
      | pending =>
          rw [settled_cons_of_pending hstatus, settled_cons_of_pending hstatus]
          simp [hasPending, hstatus]
      | ready =>
          rw [settled_cons_of_ready hstatus, settled_cons_of_ready hstatus, ih]
          simp [hasPending, hstatus]

/-! ### Two posts -/

section Posts

variable (m : Mailbox) (side : Side) (owner owner' : ActorId) (comm comm' : CommId)

/-- Both logs after one post. -/
theorem log_append :
    (m.append side owner comm).log side = m.log side ++
        [⟨owner, comm, if hasPending (m.log side.partner) then .ready else .pending⟩] ∧
      (m.append side owner comm).log side.partner = settled (m.log side.partner) := by
  have hsome := isSome_settle? (m.log side.partner)
  cases hsettle : settle? (m.log side.partner) with
  | none =>
      rw [hsettle, Option.isSome_none] at hsome
      obtain ⟨hself, hpartner⟩ := log_append_of_unsettled hsettle owner comm
      rw [hself, hpartner, ← hsome, settled, hsettle]
      exact ⟨rfl, rfl⟩
  | some records =>
      rw [hsettle, Option.isSome_some] at hsome
      obtain ⟨hself, hpartner⟩ := log_append_of_settled hsettle owner comm
      rw [hself, hpartner, ← hsome, settled, hsettle]
      exact ⟨rfl, rfl⟩

/-- How a post is recorded in the end if there is one on each side, `own` and `other` being the
logs before both of them.  It stays pending iff the post on the other side is matched with an
older record and no older record waits for this one. -/
def statusAmong (own other : List Record) : Status :=
  if hasPending own && !hasPending other then .pending else .ready

/-- **Two posts on opposite sides.**  The oldest pending record of each log is ready, and the new
records stand behind the old ones. -/
theorem log_append_append :
    let m' := (m.append side owner comm).append side.partner owner' comm'
    m'.log side = settled (m.log side) ++
        [⟨owner, comm, statusAmong (m.log side) (m.log side.partner)⟩] ∧
      m'.log side.partner = settled (m.log side.partner) ++
        [⟨owner', comm', statusAmong (m.log side.partner) (m.log side)⟩] := by
  intro m'
  obtain ⟨hself, hpartner⟩ := m.log_append side owner comm
  obtain ⟨hpartner', hself'⟩ := (m.append side owner comm).log_append side.partner owner' comm'
  rw [Side.partner_partner] at hpartner' hself'
  rw [hself', hpartner', hself, hpartner, settled_append_singleton,
    hasPending_append_singleton]
  unfold statusAmong
  -- The posts are matched with each other iff nothing older is pending on either side.
  cases hasPending (m.log side) <;> cases hasPending (m.log side.partner) <;> simp

theorem append_append_comm :
    (m.append side owner comm).append side.partner owner' comm' =
      (m.append side.partner owner' comm').append side owner comm := by
  obtain ⟨hself, hpartner⟩ := m.log_append_append side owner owner' comm comm'
  obtain ⟨hpartner', hself'⟩ := m.log_append_append side.partner owner' owner comm' comm
  rw [Side.partner_partner] at hpartner' hself'
  apply ext_log
  · simp
  · intro other
    rcases side.eq_or_eq_partner other with rfl | rfl
    · rw [hself, hself']
    · rw [hpartner, hpartner']
  · simp

end Posts

/-! ### Two calls -/

/-- What a caller is told: that the call is accepted, or why it is not. -/
def reply (m : Mailbox) (t : Transition) : Except ModelError Unit := (m.update t).map fun _ => ()

section Calls

variable {m : Mailbox} {side : Side} {a b t : Transition} {comm comm' : CommId}

theorem serve_of_hasRoom (haction : t.action = .post side m.id comm) (hroom : m.HasRoom side) :
    m.serve t = m.append side t.owner comm :=
  serve_of_ok (by rw [update_of_post haction, post_of_hasRoom hroom])

theorem serve_of_not_hasRoom (haction : t.action = .post side m.id comm)
    (hfull : ¬ m.HasRoom side) : m.serve t = m := by
  obtain ⟨capacity, hcapacity, hle⟩ := (m.hasRoom_or_full side).resolve_left hfull
  exact serve_of_error (by rw [update_of_post haction, post_of_full hcapacity hle])

theorem reply_of_hasRoom (haction : t.action = .post side m.id comm) (hroom : m.HasRoom side) :
    m.reply t = .ok () := by
  unfold reply
  rw [update_of_post haction, post_of_hasRoom hroom]
  rfl

theorem reply_of_full {capacity : Nat} (haction : t.action = .post side m.id comm)
    (hcapacity : m.capacity = some capacity) (hfull : capacity ≤ (m.log side).length) :
    m.reply t = .error (.overCapacity (.log side m.id) capacity) := by
  unfold reply
  rw [update_of_post haction, post_of_full hcapacity hfull]
  rfl

theorem hasRoom_congr {n : Mailbox} (hcapacity : n.capacity = m.capacity)
    (hlength : (n.log side).length = (m.log side).length) : n.HasRoom side ↔ m.HasRoom side := by
  unfold HasRoom
  rw [hcapacity, hlength]

/-- The reply to a post depends on the number, the bound and the length of its own log only. -/
theorem reply_congr {n : Mailbox} (hid : n.id = m.id) (hcapacity : n.capacity = m.capacity)
    (hlength : (n.log side).length = (m.log side).length)
    (haction : t.action = .post side m.id comm) : n.reply t = m.reply t := by
  have haction' : t.action = .post side n.id comm := by rw [hid, haction]
  rcases m.hasRoom_or_full side with hroom | ⟨capacity, hbound, hfull⟩
  · rw [reply_of_hasRoom haction' ((hasRoom_congr hcapacity hlength).2 hroom),
      reply_of_hasRoom haction hroom]
  · rw [reply_of_full haction' (hcapacity.trans hbound) (hlength ▸ hfull),
      reply_of_full haction hbound hfull, hid]

/-- A post leaves to the other side all that decides about posts there. -/
theorem serve_frame (haction : t.action = .post side m.id comm) :
    (m.serve t).id = m.id ∧ (m.serve t).capacity = m.capacity ∧
      ((m.serve t).log side.partner).length = (m.log side.partner).length := by
  by_cases hroom : m.HasRoom side
  · rw [serve_of_hasRoom haction hroom]
    exact ⟨id_append .., capacity_append .., (length_log_append ..).2⟩
  · rw [serve_of_not_hasRoom haction hroom]
    exact ⟨rfl, rfl, rfl⟩

theorem reply_serve (ha : a.action = .post side m.id comm)
    (hb : b.action = .post side.partner m.id comm') : (m.serve a).reply b = m.reply b := by
  obtain ⟨hid, hcapacity, hlength⟩ := serve_frame ha
  exact reply_congr hid hcapacity hlength hb

theorem hasRoom_serve_iff (ha : a.action = .post side m.id comm) :
    (m.serve a).HasRoom side.partner ↔ m.HasRoom side.partner := by
  obtain ⟨-, hcapacity, hlength⟩ := serve_frame ha
  exact hasRoom_congr hcapacity hlength

theorem serve_serve_comm (ha : a.action = .post side m.id comm)
    (hb : b.action = .post side.partner m.id comm') :
    (m.serve a).serve b = (m.serve b).serve a := by
  have hroomB := hasRoom_serve_iff ha
  have hroomA := hasRoom_serve_iff hb
  rw [Side.partner_partner] at hroomA
  have ha' : a.action = .post side (m.serve b).id comm := by rw [(serve_frame hb).1, ha]
  have hb' : b.action = .post side.partner (m.serve a).id comm' := by rw [(serve_frame ha).1, hb]
  by_cases hroom : m.HasRoom side
  · by_cases hroom' : m.HasRoom side.partner
    · rw [serve_of_hasRoom hb' (hroomB.2 hroom'), serve_of_hasRoom ha' (hroomA.2 hroom),
        serve_of_hasRoom ha hroom, serve_of_hasRoom hb hroom', append_append_comm]
    · rw [serve_of_not_hasRoom hb' (mt hroomB.1 hroom'), serve_of_not_hasRoom hb hroom']
  · rw [serve_of_not_hasRoom ha' (mt hroomA.1 hroom), serve_of_not_hasRoom ha hroom]

end Calls

/-- **Opposite posts commute.**  In any mailbox, whatever its logs and its bound are, two posts on
opposite sides lead to the same mailbox in both orders, and each of them gets the same reply.  If
both logs have room, both posts are accepted, the oldest pending record of each log is ready
afterwards, and a new record is pending iff only its own log had a pending record before. -/
theorem opposite_posts_commute (m : Mailbox) {side : Side} {a b : Transition}
    {comm comm' : CommId} (ha : a.action = .post side m.id comm)
    (hb : b.action = .post side.partner m.id comm') :
    let m' := (m.serve a).serve b
    m' = (m.serve b).serve a ∧
      (m.serve b).reply a = m.reply a ∧ (m.serve a).reply b = m.reply b ∧
      (m.HasRoom side → m.HasRoom side.partner →
        m.reply a = .ok () ∧ m.reply b = .ok () ∧
        m'.log side = settled (m.log side) ++
          [⟨a.owner, comm, statusAmong (m.log side) (m.log side.partner)⟩] ∧
        m'.log side.partner = settled (m.log side.partner) ++
          [⟨b.owner, comm', statusAmong (m.log side.partner) (m.log side)⟩]) := by
  intro m'
  have ha' : a.action = .post side.partner.partner m.id comm := by rw [Side.partner_partner, ha]
  refine ⟨serve_serve_comm ha hb, reply_serve hb ha', reply_serve ha hb, fun hroom hroom' => ?_⟩
  have hfinal : m' = (m.append side a.owner comm).append side.partner b.owner comm' := by
    have hb' : b.action = .post side.partner (m.serve a).id comm' := by rw [(serve_frame ha).1, hb]
    show (m.serve a).serve b = _
    rw [serve_of_hasRoom hb' ((hasRoom_serve_iff ha).2 hroom'), serve_of_hasRoom ha hroom]
  rw [hfinal]
  exact ⟨reply_of_hasRoom ha hroom, reply_of_hasRoom hb hroom',
    m.log_append_append side a.owner b.owner comm comm'⟩

/-- A mailbox with a pending send among ready ones and without a pending receive. -/
def lopsided (capacity : Nat) : Mailbox :=
  ⟨1, [⟨9, 0, .ready⟩, ⟨8, 0, .pending⟩, ⟨9, 1, .ready⟩], [⟨9, 2, .ready⟩], some capacity⟩

/-- A send to that mailbox. -/
def lateSend : Transition := ⟨⟨0, 3⟩, .post .send 1 5, false⟩

/-- A receive from that mailbox. -/
def lateReceive : Transition := ⟨⟨0, 4⟩, .post .receive 1 6, false⟩

/-- The receive is matched with the pending send, and the new send is pending, whichever comes
first.  Without room for a send, the send is refused before and after the receive. -/
theorem lopsided_posts_commute :
    (∀ capacity, lateSend.action = .post .send (lopsided capacity).id 5 ∧
      lateReceive.action = .post .receive (lopsided capacity).id 6) ∧
    (lopsided 4).HasRoom .send ∧ (lopsided 4).HasRoom .receive ∧
    ((lopsided 4).serve lateSend).serve lateReceive =
      ((lopsided 4).serve lateReceive).serve lateSend ∧
    (((lopsided 4).serve lateSend).serve lateReceive).log .send =
      [⟨9, 0, .ready⟩, ⟨8, 0, .ready⟩, ⟨9, 1, .ready⟩, ⟨3, 5, .pending⟩] ∧
    (((lopsided 4).serve lateSend).serve lateReceive).log .receive =
      [⟨9, 2, .ready⟩, ⟨4, 6, .ready⟩] ∧
    (lopsided 3).reply lateSend = .error (.overCapacity (.log .send 1) 3) ∧
    ((lopsided 3).serve lateReceive).reply lateSend = .error (.overCapacity (.log .send 1) 3) := by
  have hroom : ∀ side, (lopsided 4).HasRoom side := by
    intro side capacity hcapacity
    cases hcapacity
    cases side <;> decide
  have hactions : ∀ capacity, lateSend.action = .post .send (lopsided capacity).id 5 ∧
      lateReceive.action = .post .receive (lopsided capacity).id 6 := fun _ => ⟨rfl, rfl⟩
  obtain ⟨hsame, -, -, hlogs⟩ :=
    opposite_posts_commute (lopsided 4) (hactions 4).1 (hactions 4).2
  obtain ⟨-, -, hsends, hreceives⟩ := hlogs (hroom .send) (hroom .receive)
  obtain ⟨-, hreply, -, -⟩ := opposite_posts_commute (lopsided 3) (hactions 3).1 (hactions 3).2
  have hrefused : (lopsided 3).reply lateSend = .error (.overCapacity (.log .send 1) 3) := rfl
  exact ⟨hactions, hroom .send, hroom .receive, hsame, hsends, hreceives, hrefused,
    hreply.trans hrefused⟩

end Mailbox

end Interleaving
