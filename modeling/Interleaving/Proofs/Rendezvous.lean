import Interleaving.Mailbox
import Mathlib.Data.List.Basic

/-!
# First come, first matched

The logs of a mailbox are determined by what was posted to it: `Mailbox.holding`
keeps one record for each post, and on both sides the records up to the length
of the shorter side are ready.  Posting to such a mailbox gives such a mailbox
(`Mailbox.append_holding`), so the oldest pending record is always the one just
behind the ready ones, and records are never pending on both sides.
-/

namespace Interleaving

theorem Side.eq_or_eq_partner (side other : Side) : other = side ∨ other = side.partner := by
  cases side <;> cases other <;> simp [Side.partner]

/-- Who posts, and under which number. -/
abbrev Posting := ActorId × CommId

/-- The records of a list of posts of which the first `matched` found a partner. -/
def recordsOf (matched : Nat) (posts : List Posting) : List Record :=
  posts.mapIdx fun index (owner, comm) =>
    ⟨owner, comm, if index < matched then .ready else .pending⟩

@[simp] theorem length_recordsOf (matched : Nat) (posts : List Posting) :
    (recordsOf matched posts).length = posts.length := by
  simp [recordsOf]

@[simp] theorem getElem?_recordsOf (matched : Nat) (posts : List Posting) (index : Nat) :
    (recordsOf matched posts)[index]? = posts[index]?.map fun (owner, comm) =>
      ⟨owner, comm, if index < matched then .ready else .pending⟩ := by
  simp [recordsOf]

@[simp] theorem recordsOf_zero_cons (post : Posting) (posts : List Posting) :
    recordsOf 0 (post :: posts) = ⟨post.1, post.2, .pending⟩ :: recordsOf 0 posts := by
  simp [recordsOf, List.mapIdx_cons]

@[simp] theorem recordsOf_succ_cons (matched : Nat) (post : Posting) (posts : List Posting) :
    recordsOf (matched + 1) (post :: posts) =
      ⟨post.1, post.2, .ready⟩ :: recordsOf matched posts := by
  simp [recordsOf, List.mapIdx_cons]

theorem recordsOf_append_singleton (matched : Nat) (posts : List Posting) (post : Posting) :
    recordsOf matched (posts ++ [post]) = recordsOf matched posts ++
      [⟨post.1, post.2, if posts.length < matched then .ready else .pending⟩] := by
  simp [recordsOf]

@[simp] theorem map_owner_recordsOf (matched : Nat) (posts : List Posting) :
    (recordsOf matched posts).map Record.owner = posts.map Prod.fst := by
  apply List.ext_getElem?
  intro index
  simp [Function.comp_def]

/-- A number of partners past the end of the list counts as its end. -/
theorem recordsOf_congr {matched matched' : Nat} {posts : List Posting}
    (h : posts.length ≤ matched) (h' : posts.length ≤ matched') :
    recordsOf matched posts = recordsOf matched' posts := by
  apply List.ext_getElem?
  intro index
  rw [getElem?_recordsOf, getElem?_recordsOf]
  by_cases hindex : index < posts.length
  · have hmatched : index < matched := by omega
    have hmatched' : index < matched' := by omega
    simp only [hmatched, hmatched']
  · rw [List.getElem?_eq_none (by omega)]
    rfl

namespace Mailbox

/-- The oldest pending record is the one behind the ready ones. -/
theorem settle?_recordsOf (matched : Nat) (posts : List Posting) :
    settle? (recordsOf matched posts) =
      if matched < posts.length then some (recordsOf (matched + 1) posts) else none := by
  induction posts generalizing matched with
  | nil => rfl
  | cons post posts ih =>
      -- The scan stops at the first record or steps over it.
      cases matched with
      | zero => simp [settle?]
      | succ matched =>
          rw [recordsOf_succ_cons, recordsOf_succ_cons]
          simp only [settle?, ih, List.length_cons, Nat.add_lt_add_iff_right]
          split <;> rfl

/-- How many posts of each side have found a partner. -/
def matchedCount (posts : Side → List Posting) : Nat :=
  min (posts .send).length (posts .receive).length

theorem matchedCount_eq (posts : Side → List Posting) (side : Side) :
    matchedCount posts = min (posts side).length (posts side.partner).length := by
  cases side
  · rfl
  · exact Nat.min_comm _ _

/-- The mailbox to which exactly these posts were made: the i-th record of a log
is ready iff there are more than i posts on both sides. -/
def holding (m : Mailbox) (posts : Side → List Posting) : Mailbox where
  id := m.id
  sends := recordsOf (matchedCount posts) (posts .send)
  receives := recordsOf (matchedCount posts) (posts .receive)
  capacity := m.capacity

@[simp] theorem id_holding (m : Mailbox) (posts : Side → List Posting) :
    (m.holding posts).id = m.id := rfl

@[simp] theorem capacity_holding (m : Mailbox) (posts : Side → List Posting) :
    (m.holding posts).capacity = m.capacity := rfl

@[simp] theorem log_holding (m : Mailbox) (posts : Side → List Posting) (side : Side) :
    (m.holding posts).log side = recordsOf (matchedCount posts) (posts side) := by
  cases side <;> rfl

theorem ext_log {m n : Mailbox} (hid : m.id = n.id) (hlog : ∀ side, m.log side = n.log side)
    (hcapacity : m.capacity = n.capacity) : m = n := by
  have hsends : m.sends = n.sends := hlog .send
  have hreceives : m.receives = n.receives := hlog .receive
  cases m
  cases n
  simp_all

theorem holding_fresh (id : MailboxId) (capacity : Option Nat) :
    (fresh id capacity).holding (fun _ => []) = fresh id capacity := rfl

@[simp] theorem id_append (m : Mailbox) (side : Side) (owner : ActorId) (comm : CommId) :
    (m.append side owner comm).id = m.id := by
  unfold append
  split <;> cases side <;> rfl

@[simp] theorem capacity_append (m : Mailbox) (side : Side) (owner : ActorId) (comm : CommId) :
    (m.append side owner comm).capacity = m.capacity := by
  unfold append
  split <;> cases side <;> rfl

/-- A post that finds a pending partner: the partner and the new record are ready. -/
theorem log_append_of_settled {m : Mailbox} {side : Side} {settled : List Record}
    (h : settle? (m.log side.partner) = some settled) (owner : ActorId) (comm : CommId) :
    (m.append side owner comm).log side = m.log side ++ [⟨owner, comm, .ready⟩] ∧
      (m.append side owner comm).log side.partner = settled := by
  unfold append
  rw [h]
  cases side <;> exact ⟨rfl, rfl⟩

/-- A post that finds no pending partner is pending itself. -/
theorem log_append_of_unsettled {m : Mailbox} {side : Side}
    (h : settle? (m.log side.partner) = none) (owner : ActorId) (comm : CommId) :
    (m.append side owner comm).log side = m.log side ++ [⟨owner, comm, .pending⟩] ∧
      (m.append side owner comm).log side.partner = m.log side.partner := by
  unfold append
  rw [h]
  cases side <;> exact ⟨rfl, rfl⟩

/-- On the other side the record behind the posts of this side is the oldest pending one, if
there is such a record. -/
theorem settle?_log_holding (m : Mailbox) (posts : Side → List Posting) (side : Side) :
    settle? ((m.holding posts).log side.partner) =
      if (posts side).length < (posts side.partner).length then
        some (recordsOf ((posts side).length + 1) (posts side.partner))
      else none := by
  have hcount := matchedCount_eq posts side
  rw [log_holding, settle?_recordsOf]
  by_cases hlonger : (posts side).length < (posts side.partner).length
  · have hmatched : matchedCount posts = (posts side).length := by omega
    rw [hmatched]
  · have hmatched : matchedCount posts = (posts side.partner).length := by omega
    rw [hmatched, if_neg hlonger, if_neg (Nat.lt_irrefl _)]

/-- A post adds one record to its side.  It is ready iff the other side is the
longer one, and then the first record there that was pending is ready too. -/
theorem append_holding (m : Mailbox) {posts posts' : Side → List Posting} {side : Side}
    {owner : ActorId} {comm : CommId} (hself : posts' side = posts side ++ [(owner, comm)])
    (hpartner : posts' side.partner = posts side.partner) :
    (m.holding posts).append side owner comm = m.holding posts' := by
  have hcount := matchedCount_eq posts side
  have hcount' := matchedCount_eq posts' side
  rw [hself, hpartner, List.length_append, List.length_singleton] at hcount'
  have hlogs : ((m.holding posts).append side owner comm).log side =
        recordsOf (matchedCount posts') (posts' side) ∧
      ((m.holding posts).append side owner comm).log side.partner =
        recordsOf (matchedCount posts') (posts' side.partner) := by
    have hsettle := settle?_log_holding m posts side
    rw [hself, hpartner, recordsOf_append_singleton]
    by_cases hlonger : (posts side).length < (posts side.partner).length
    · -- The partner of the new record is the first one behind the matched posts.
      have hmatched : matchedCount posts = (posts side).length := by omega
      have hmatched' : matchedCount posts' = (posts side).length + 1 := by omega
      rw [if_pos hlonger] at hsettle
      obtain ⟨hnew, hold⟩ := log_append_of_settled hsettle owner comm
      refine ⟨?_, by rw [hold, hmatched']⟩
      rw [hnew, log_holding, hmatched, hmatched', if_pos (Nat.lt_succ_self _),
        recordsOf_congr (Nat.le_refl _) (Nat.le_succ _)]
    · -- There is no partner yet, and the new record is behind the matched posts.
      have hmatched : matchedCount posts = (posts side.partner).length := by omega
      have hmatched' : matchedCount posts' = (posts side.partner).length := by omega
      rw [if_neg hlonger] at hsettle
      obtain ⟨hnew, hold⟩ := log_append_of_unsettled hsettle owner comm
      refine ⟨?_, by rw [hold, log_holding, hmatched, hmatched']⟩
      rw [hnew, log_holding, hmatched, hmatched', if_neg hlonger]
  apply ext_log
  · simp
  · intro other
    rw [log_holding]
    rcases side.eq_or_eq_partner other with rfl | rfl
    · exact hlogs.1
    · exact hlogs.2
  · simp

/-- A communication is matched iff a ready record of it stands in one of the logs. -/
theorem isMatched_iff {m : Mailbox} {owner : ActorId} {comm : CommId} :
    m.isMatched owner comm = true ↔ ∃ side, (⟨owner, comm, .ready⟩ : Record) ∈ m.log side := by
  simp only [isMatched, List.any_eq_true, List.mem_append, Bool.and_eq_true, decide_eq_true_eq]
  -- The scan looks through both logs, one after the other.
  constructor
  · rintro ⟨⟨_, _, _⟩, hsends | hreceives, ⟨rfl, rfl⟩, rfl⟩
    · exact ⟨.send, hsends⟩
    · exact ⟨.receive, hreceives⟩
  · rintro ⟨side, hlog⟩
    cases side with
    | send => exact ⟨_, .inl hlog, ⟨rfl, rfl⟩, rfl⟩
    | receive => exact ⟨_, .inr hlog, ⟨rfl, rfl⟩, rfl⟩

/-- A record is matched iff it stands on one side at a place that the other side
has too. -/
theorem isMatched_holding_iff (m : Mailbox) (posts : Side → List Posting) (owner : ActorId)
    (comm : CommId) :
    (m.holding posts).isMatched owner comm = true ↔
      ∃ (side : Side) (index : Nat), (posts side)[index]? = some (owner, comm) ∧
        index < (posts side.partner).length := by
  have hmem : ∀ side, (⟨owner, comm, .ready⟩ : Record) ∈ (m.holding posts).log side ↔
      ∃ index, (posts side)[index]? = some (owner, comm) ∧
        index < (posts side.partner).length := by
    intro side
    have hcount := matchedCount_eq posts side
    rw [log_holding, List.mem_iff_getElem?]
    refine exists_congr fun index => ?_
    rw [getElem?_recordsOf]
    constructor
    · intro h
      obtain ⟨post, hpost, heq⟩ := Option.map_eq_some_iff.1 h
      by_cases hindex : index < matchedCount posts
      · simp only [hindex, if_true, Record.mk.injEq, and_true] at heq
        exact ⟨by rw [hpost, ← heq.1, ← heq.2], by omega⟩
      · simp [hindex] at heq
    · rintro ⟨hpost, hpartner⟩
      have hself : index < (posts side).length := (List.getElem?_eq_some_iff.1 hpost).1
      have hindex : index < matchedCount posts := by omega
      simp [hpost, hindex]
  rw [isMatched_iff]
  exact exists_congr hmem

end Mailbox

end Interleaving
