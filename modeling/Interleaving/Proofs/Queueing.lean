import Interleaving.Proofs.Matching
import Interleaving.Proofs.Step

/-!
# A mailbox on its own

What a mailbox makes of any sequence of calls, whether they are meant for it or not.
`Mailbox.accepted` keeps the calls that it takes.  After the calls it holds exactly what the
accepted ones post (`Mailbox.serveAll_fresh`), so the next call is decided by how many were
accepted before it (`Mailbox.Accepts`, `Mailbox.Declines`), and record number k of one side is
matched with record number k of the other one and with nothing else (`Mailbox.Pairs`).
-/

namespace Interleaving

/-- What a transition posts to one side of the mailbox that it names. -/
def Transition.posting? (side : Side) (t : Transition) : Option Posting :=
  match t.action with
  | .post side' _ comm => if side' = side then some (t.owner, comm) else none
  | _ => none

theorem Transition.posting?_of_post {t : Transition} {side : Side} {mailbox : MailboxId}
    {comm : CommId} (h : t.action = .post side mailbox comm) (other : Side) :
    t.posting? other = if side = other then some (t.owner, comm) else none := by
  simp [posting?, h]

namespace Mailbox

variable {m m' : Mailbox} {t : Transition}

/-- The mailbox after one call; a call that is refused leaves it as it is. -/
def serve (m : Mailbox) (t : Transition) : Mailbox :=
  match m.update t with
  | .ok m' => m'
  | .error _ => m

/-- The mailbox after a sequence of calls. -/
def serveAll (m : Mailbox) (calls : List Transition) : Mailbox := calls.foldl serve m

/-- The calls that are not refused, in order. -/
def accepted (m : Mailbox) : List Transition → List Transition
  | [] => []
  | t :: rest =>
    match m.update t with
    | .ok m' => t :: accepted m' rest
    | .error _ => accepted m rest

/-- What the accepted calls post to one side. -/
def taken (m : Mailbox) (calls : List Transition) (side : Side) : List Posting :=
  (m.accepted calls).filterMap (Transition.posting? side)

theorem serve_of_ok (h : m.update t = .ok m') : m.serve t = m' := by
  simp [serve, h]

theorem serve_of_error {error : ModelError} (h : m.update t = .error error) : m.serve t = m := by
  simp [serve, h]

theorem serveAll_append_singleton (m : Mailbox) (calls : List Transition) (t : Transition) :
    m.serveAll (calls ++ [t]) = (m.serveAll calls).serve t := by
  simp [serveAll]

theorem accepted_cons_of_ok (h : m.update t = .ok m') (rest : List Transition) :
    m.accepted (t :: rest) = t :: m'.accepted rest := by
  simp only [accepted, h]

theorem accepted_cons_of_error {error : ModelError} (h : m.update t = .error error)
    (rest : List Transition) : m.accepted (t :: rest) = m.accepted rest := by
  simp only [accepted, h]

theorem accepted_append (m : Mailbox) (calls rest : List Transition) :
    m.accepted (calls ++ rest) = m.accepted calls ++ (m.serveAll calls).accepted rest := by
  induction calls generalizing m with
  | nil => rfl
  | cons t calls ih =>
      show m.accepted (t :: (calls ++ rest)) = _ ++ ((m.serve t).serveAll calls).accepted rest
      cases h : m.update t with
      | ok m' =>
          rw [accepted_cons_of_ok h, accepted_cons_of_ok h, serve_of_ok h, ih, List.cons_append]
      | error error =>
          rw [accepted_cons_of_error h, accepted_cons_of_error h, serve_of_error h, ih]

theorem accepted_append_of_ok {calls : List Transition} (h : (m.serveAll calls).update t = .ok m') :
    m.accepted (calls ++ [t]) = m.accepted calls ++ [t] := by
  rw [accepted_append, accepted_cons_of_ok h]
  rfl

theorem accepted_append_of_error {calls : List Transition} {error : ModelError}
    (h : (m.serveAll calls).update t = .error error) :
    m.accepted (calls ++ [t]) = m.accepted calls := by
  rw [accepted_append, accepted_cons_of_error h]
  exact List.append_nil _

theorem taken_append_of_ok {calls : List Transition} {side : Side} {mailbox : MailboxId}
    {comm : CommId} (h : (m.serveAll calls).update t = .ok m')
    (haction : t.action = .post side mailbox comm) (other : Side) :
    m.taken (calls ++ [t]) other =
      m.taken calls other ++ (if side = other then some (t.owner, comm) else none).toList := by
  unfold taken
  rw [accepted_append_of_ok h, List.filterMap_append, ← Transition.posting?_of_post haction]
  cases hposting : t.posting? other <;> simp [hposting]

/-- **After any calls** a mailbox that started empty holds what the accepted ones posted. -/
theorem serveAll_fresh (id : MailboxId) (capacity : Option Nat) (calls : List Transition) :
    (fresh id capacity).serveAll calls =
      (fresh id capacity).holding ((fresh id capacity).taken calls) := by
  -- Induction on the last call, which meets the mailbox that the other calls have left.
  induction calls using List.reverseRecOn with
  | nil => exact (holding_fresh id capacity).symm
  | append_singleton calls t ih =>
      rw [serveAll_append_singleton]
      cases h : ((fresh id capacity).serveAll calls).update t with
      | error error =>
          unfold taken
          rw [serve_of_error h, accepted_append_of_error h]
          exact ih
      | ok m' =>
          obtain ⟨side, comm, haction, -, happend⟩ := update_eq_ok_iff.1 h
          have htaken := taken_append_of_ok h haction
          rw [serve_of_ok h, happend, ih]
          apply append_holding
          · rw [htaken, if_pos rfl]
            rfl
          · rw [htaken, if_neg side.partner_ne.symm]
            exact List.append_nil _

/-! ### Which calls are accepted -/

/-- A mailbox with this number and bound that has `count` records on each side takes the call:
it posts to this mailbox, and its side is below the bound. -/
def Accepts (id : MailboxId) (capacity : Option Nat) (count : Side → Nat) (t : Transition) :
    Prop :=
  ∃ side comm, t.action = .post side id comm ∧ ∀ most, capacity = some most → count side < most

/-- Why such a mailbox refuses a call: an action that is no post comes first, then a foreign
number, and the bound comes last. -/
inductive Declines (id : MailboxId) (capacity : Option Nat) (count : Side → Nat)
    (t : Transition) : ModelError → Prop
  | notCommunication (hnot : ∀ side mailbox comm, t.action ≠ .post side mailbox comm) :
      Declines id capacity count t (.notCommunication t.label)
  | unknownMailbox {side : Side} {mailbox : MailboxId} {comm : CommId}
      (haction : t.action = .post side mailbox comm) (hid : mailbox ≠ id) :
      Declines id capacity count t (.unknownMailbox mailbox)
  | overCapacity {side : Side} {comm : CommId} {most : Nat}
      (haction : t.action = .post side id comm) (hcapacity : capacity = some most)
      (hfull : most ≤ count side) :
      Declines id capacity count t (.overCapacity (.log side id) most)

theorem exists_update_iff_accepts (m : Mailbox) (t : Transition) :
    (∃ m', m.update t = .ok m') ↔ Accepts m.id m.capacity (fun side => (m.log side).length) t := by
  constructor
  · rintro ⟨m', h⟩
    obtain ⟨side, comm, haction, hroom, -⟩ := update_eq_ok_iff.1 h
    exact ⟨side, comm, haction, hroom⟩
  · rintro ⟨side, comm, haction, hroom⟩
    exact ⟨_, update_eq_ok_iff.2 ⟨side, comm, haction, hroom, rfl⟩⟩

theorem update_eq_error_iff_declines (m : Mailbox) (t : Transition) (error : ModelError) :
    m.update t = .error error ↔
      Declines m.id m.capacity (fun side => (m.log side).length) t error := by
  constructor
  · intro h
    cases haction : t.action with
    | post side mailbox comm =>
        by_cases hid : mailbox = m.id
        · subst hid
          rw [update_of_post haction, post_eq_error_iff] at h
          obtain ⟨most, hcapacity, hfull, rfl⟩ := h
          exact .overCapacity haction hcapacity hfull
        · simp only [update, haction, if_neg hid, Except.error.injEq] at h
          exact h ▸ .unknownMailbox haction hid
    | _ =>
        simp only [update, haction, Except.error.injEq] at h
        exact h ▸ .notCommunication fun side mailbox comm hpost => by simp [haction] at hpost
  · intro h
    cases h with
    | notCommunication hnot =>
        unfold update
        split
        case h_1 side mailbox comm haction => exact absurd haction (hnot side mailbox comm)
        case h_2 => rfl
    | unknownMailbox haction hid => simp only [update, haction, if_neg hid]
    | overCapacity haction hcapacity hfull =>
        rw [update_of_post haction]
        exact post_of_full hcapacity hfull _ _

/-! ### Which records are matched -/

/-- From `m` to `m'` a post became the last record of its side, and it is paired with the record
that has the same place on the other side.  If there is one, it was the oldest pending record
there, and both are ready now.  Otherwise the post is pending and the other side is as before. -/
structure Pairs (m : Mailbox) (side : Side) (post : Posting) (m' : Mailbox) : Prop where
  own : m'.log side = m.log side ++ [⟨post.1, post.2,
    if (m.log side).length < (m.log side.partner).length then .ready else .pending⟩]
  partner_iff : ∀ partner, Settles (m.log side.partner) partner (m'.log side.partner) ↔
    (m.log side.partner)[(m.log side).length]? = some partner
  alone : (m.log side.partner).length ≤ (m.log side).length →
    m'.log side.partner = m.log side.partner

/-- In a log whose first `matched` posts found a partner the next one is settled. -/
theorem settles_recordsOf {matched : Nat} {posts : List Posting} {post : Posting}
    (h : posts[matched]? = some post) :
    Settles (recordsOf matched posts) ⟨post.1, post.2, .pending⟩ (recordsOf (matched + 1) posts) := by
  induction posts generalizing matched with
  | nil => cases h
  | cons first posts ih =>
      cases matched with
      | zero =>
          cases h
          rw [recordsOf_zero_cons, recordsOf_succ_cons, settles_cons_of_pending rfl]
          exact ⟨rfl, rfl⟩
      | succ matched =>
          rw [recordsOf_succ_cons, recordsOf_succ_cons, settles_cons_of_ready rfl]
          exact ⟨_, ih h, rfl⟩

section Holding

variable (m : Mailbox) {posts : Side → List Posting} {side : Side} (owner : ActorId)
  (comm : CommId)

/-- If the other side is longer, the record at the place of the post is settled. -/
theorem pairs_append_holding_of_lt (hlt : (posts side).length < (posts side.partner).length) :
    (m.holding posts).Pairs side (owner, comm) ((m.holding posts).append side owner comm) := by
  have hlength : ∀ other, ((m.holding posts).log other).length = (posts other).length := by
    simp
  have hmatched : matchedCount posts = (posts side).length := by
    rw [matchedCount_eq posts side]
    omega
  have hsettle := settle?_log_holding m posts side
  rw [if_pos hlt] at hsettle
  obtain ⟨hnew, hold⟩ := log_append_of_settled hsettle owner comm
  obtain ⟨post, hpost⟩ : ∃ post, (posts side.partner)[(posts side).length]? = some post :=
    ⟨_, List.getElem?_eq_getElem hlt⟩
  have hplace : ((m.holding posts).log side.partner)[(posts side).length]? =
      some ⟨post.1, post.2, .pending⟩ := by
    simp [hpost, hmatched]
  have hsettles := settles_recordsOf hpost
  rw [← hmatched, ← log_holding m, hmatched, ← hold] at hsettles
  refine ⟨by rw [hnew, hlength, hlength, if_pos hlt], fun partner => ?_, fun hle => ?_⟩
  · rw [hlength, hplace, Option.some.injEq]
    exact ⟨fun h => hsettles.unique h, fun h => h ▸ hsettles⟩
  · rw [hlength, hlength] at hle
    omega

/-- If the other side is not longer, nothing is pending there. -/
theorem pairs_append_holding_of_le (hle : (posts side.partner).length ≤ (posts side).length) :
    (m.holding posts).Pairs side (owner, comm) ((m.holding posts).append side owner comm) := by
  have hlength : ∀ other, ((m.holding posts).log other).length = (posts other).length := by
    simp
  have hsettle := settle?_log_holding m posts side
  rw [if_neg (Nat.not_lt_of_le hle)] at hsettle
  obtain ⟨hnew, hold⟩ := log_append_of_unsettled hsettle owner comm
  refine ⟨by rw [hnew, hlength, hlength, if_neg (Nat.not_lt_of_le hle)], fun partner => ?_,
    fun _ => hold⟩
  have hnone : ((m.holding posts).log side.partner)[(posts side).length]? = none :=
    List.getElem?_eq_none (by rw [hlength]; omega)
  rw [hlength, hnone]
  constructor
  · intro h
    rw [settle?_eq_some_iff.2 ⟨partner, h⟩] at hsettle
    cases hsettle
  · intro h
    cases h

/-- A post to a mailbox that holds posts is paired with the one at its place. -/
theorem pairs_append_holding :
    (m.holding posts).Pairs side (owner, comm) ((m.holding posts).append side owner comm) := by
  by_cases hlt : (posts side).length < (posts side.partner).length
  · exact m.pairs_append_holding_of_lt owner comm hlt
  · exact m.pairs_append_holding_of_le owner comm (by omega)

end Holding

/-- **First come, first matched.**  Whatever calls were made of a mailbox that started empty, it
holds what the accepted ones posted, in order, and on both sides the records up to the length of
the shorter one are ready.  The next call is accepted iff it posts to this mailbox and fewer
posts than the bound allows were accepted on its side.  A refused call changes nothing and tells
the first reason there is.  An accepted one is paired with the post that has its place on the
other side. -/
theorem calls_pair_in_order (id : MailboxId) (capacity : Option Nat) (calls : List Transition)
    (t : Transition) :
    let new := fresh id capacity
    let m := new.serveAll calls
    let count := fun side => (new.taken calls side).length
    m = new.holding (new.taken calls) ∧
    ((∃ m', m.update t = .ok m') ↔ Accepts id capacity count t) ∧
    (∀ error, m.update t = .error error ↔ Declines id capacity count t error) ∧
    (∀ error, m.update t = .error error →
      new.serveAll (calls ++ [t]) = m ∧ new.accepted (calls ++ [t]) = new.accepted calls) ∧
    ∀ m', m.update t = .ok m' →
      new.serveAll (calls ++ [t]) = m' ∧ new.accepted (calls ++ [t]) = new.accepted calls ++ [t] ∧
      ∀ side mailbox comm, t.action = .post side mailbox comm →
        m.Pairs side (t.owner, comm) m' := by
  intro new m count
  have hholding : m = new.holding (new.taken calls) := serveAll_fresh id capacity calls
  have hid : m.id = id := by rw [hholding]; rfl
  have hcapacity : m.capacity = capacity := by rw [hholding]; rfl
  have hcount : (fun side => (m.log side).length) = count := by
    funext side
    rw [hholding, log_holding, length_recordsOf]
  have haccepts := exists_update_iff_accepts m t
  have hdeclines := update_eq_error_iff_declines m t
  rw [hid, hcapacity, hcount] at haccepts
  simp only [hid, hcapacity, hcount] at hdeclines
  refine ⟨hholding, haccepts, hdeclines, fun error h => ⟨?_, accepted_append_of_error h⟩,
    fun m' h => ⟨?_, accepted_append_of_ok h, fun side mailbox comm haction => ?_⟩⟩
  · rw [serveAll_append_singleton]
    exact serve_of_error h
  · rw [serveAll_append_singleton]
    exact serve_of_ok h
  · obtain ⟨side', comm', haction', -, rfl⟩ := update_eq_ok_iff.1 h
    rw [haction, Action.post.injEq] at haction'
    obtain ⟨rfl, -, rfl⟩ := haction'
    rw [hholding]
    exact new.pairs_append_holding t.owner comm

/-- Calls of a mailbox for one record on each side: a receive that is accepted, and then a lock,
a send to another mailbox and a second receive, which are refused. -/
def counterCalls : List Transition :=
  [⟨⟨0, 2⟩, .post .receive 7 5, false⟩, ⟨⟨1, 2⟩, .lock 7, false⟩,
    ⟨⟨0, 3⟩, .post .send 8 5, false⟩, ⟨⟨0, 4⟩, .post .receive 7 5, false⟩]

/-- After these calls the receive is still pending.  One more receive is refused, and a send is
paired with the first one. -/
theorem counterCalls_pair_in_order :
    (fresh 7 (some 1)).serveAll counterCalls = ⟨7, [], [⟨2, 5, .pending⟩], some 1⟩ ∧
      (⟨7, [], [⟨2, 5, .pending⟩], some 1⟩ : Mailbox).update
        ⟨⟨0, 4⟩, .post .receive 7 5, false⟩ = .error (.overCapacity (.log .receive 7) 1) ∧
      (⟨7, [], [⟨2, 5, .pending⟩], some 1⟩ : Mailbox).update
        ⟨⟨0, 1⟩, .post .send 7 9, false⟩ =
          .ok ⟨7, [⟨1, 9, .ready⟩], [⟨2, 5, .ready⟩], some 1⟩ ∧
      Pairs ⟨7, [], [⟨2, 5, .pending⟩], some 1⟩ .send (1, 9)
        ⟨7, [⟨1, 9, .ready⟩], [⟨2, 5, .ready⟩], some 1⟩ := by
  obtain ⟨hholding, -, hdeclines, -, -⟩ :=
    calls_pair_in_order 7 (some 1) counterCalls ⟨⟨0, 4⟩, .post .receive 7 5, false⟩
  obtain ⟨-, -, -, -, haccepted⟩ :=
    calls_pair_in_order 7 (some 1) counterCalls ⟨⟨0, 1⟩, .post .send 7 9, false⟩
  have hsend : (⟨7, [], [⟨2, 5, .pending⟩], some 1⟩ : Mailbox).update
      ⟨⟨0, 1⟩, .post .send 7 9, false⟩ = .ok ⟨7, [⟨1, 9, .ready⟩], [⟨2, 5, .ready⟩], some 1⟩ := rfl
  refine ⟨hholding, ?_, hsend, ?_⟩
  · exact (hdeclines _).2 (.overCapacity rfl rfl (by decide))
  · exact (haccepted _ hsend).2.2 .send 7 9 rfl

end Mailbox

end Interleaving
