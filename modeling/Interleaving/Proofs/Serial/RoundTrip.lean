import Interleaving.Proofs.Frontier
import Interleaving.Proofs.Json.Shapes
import Interleaving.Proofs.Serial.Range

/-!
# Values are read back from their texts

Each of the program's types is read back from the JSON text that is written for it, as long as
its numbers fit.  A state is more than its tables: what is read has to pass the checks of a
snapshot, and it passes them because every state that can be obtained is sound.
-/

namespace Interleaving

open Json (AreFields Encodes IsName)
open Json.Number (Fit)

/-! ### Actions and transitions -/

theorem AccessMode.encodes (mode : AccessMode) : Encodes ofJson? mode.toJson mode := by
  cases mode
  case read =>
    refine Json.encodes_name (by decide) fun v hv => ?_
    simp [ofJson?, hv, Json.isNothing]
  case write =>
    refine Json.encodes_name (by decide) fun v hv => ?_
    simp [ofJson?, hv, Json.isNothing]

namespace Action

theorem encodes_commParts {mailbox : MailboxId} {comm : CommId} (h : Fit [mailbox, comm]) :
    Encodes commParts? (.record (commParts mailbox comm)) (mailbox, comm) := by
  have hmailbox := Json.encodes_nat (h mailbox (by simp))
  have hcomm := Json.encodes_nat (h comm (by simp))
  have hnames : AreFields ["mailbox", "comm"] := by decide
  refine Json.encodes_record hnames rfl ?_ fun v hv => ?_
  · simp [commParts, hmailbox.legal, hcomm.legal]
  · simp [commParts?, Json.fields?, hv, commParts, hmailbox.read, hcomm.read]

theorem encodes_mutexPart {mutex : MutexId} (h : mutex < Json.Number.limit) :
    Encodes mutexPart? (.record [("mutex", .nat mutex)]) mutex := by
  have hmutex := Json.encodes_nat h
  have hnames : AreFields ["mutex"] := by decide
  refine Json.encodes_record hnames rfl ?_ fun v hv => ?_
  · simp [hmutex.legal]
  · simp [mutexPart?, Json.fields?, hv, hmutex.read]

theorem encodes_accessParts {var : VariableId} (h : var < Json.Number.limit) (mode : AccessMode) :
    Encodes accessParts? (.record [("variable", .nat var), ("mode", mode.toJson)]) (var, mode) := by
  have hvar := Json.encodes_nat h
  have hmode := mode.encodes
  have hnames : AreFields ["variable", "mode"] := by decide
  refine Json.encodes_record hnames rfl ?_ fun v hv => ?_
  · simp [hvar.legal, hmode.legal]
  · simp [accessParts?, Json.fields?, hv, hvar.read, hmode.read]

theorem encodes {action : Action} (h : Fit action.numbers) :
    Encodes ofJson? action.toJson action := by
  cases action with
  | post side mailbox comm =>
      have hparts := encodes_commParts h
      cases side
      case send =>
        refine Json.encodes_choice (by decide) hparts.legal fun v hv => ?_
        simp [ofJson?, hv, hparts.read]
      case receive =>
        refine Json.encodes_choice (by decide) hparts.legal fun v hv => ?_
        simp [ofJson?, hv, hparts.read]
  | wait mailbox comm =>
      have hparts := encodes_commParts h
      refine Json.encodes_choice (by decide) hparts.legal fun v hv => ?_
      simp [ofJson?, hv, hparts.read]
  | lock mutex =>
      have hpart := encodes_mutexPart (h mutex (by simp [numbers]))
      refine Json.encodes_choice (by decide) hpart.legal fun v hv => ?_
      simp [ofJson?, hv, hpart.read]
  | unlock mutex =>
      have hpart := encodes_mutexPart (h mutex (by simp [numbers]))
      refine Json.encodes_choice (by decide) hpart.legal fun v hv => ?_
      simp [ofJson?, hv, hpart.read]
  | mutexWait =>
      refine Json.encodes_name (by decide) fun v hv => ?_
      simp [ofJson?, hv, Json.isNothing]
  | mutexTest =>
      refine Json.encodes_name (by decide) fun v hv => ?_
      simp [ofJson?, hv, Json.isNothing]
  | access var mode =>
      have hparts := encodes_accessParts (h var (by simp [numbers])) mode
      refine Json.encodes_choice (by decide) hparts.legal fun v hv => ?_
      simp [ofJson?, hv, hparts.read]

end Action

theorem Transition.encodes {t : Transition} (h : Fit t.numbers) :
    Encodes ofJson? t.toJson t := by
  have hposition := Json.encodes_nat (h t.position (by simp [numbers]))
  have howner := Json.encodes_nat (h t.owner (by simp [numbers]))
  have haction := Action.encodes (Json.Number.fit_cons.1 (Json.Number.fit_cons.1 h).2).2
  have hexecuted := Json.encodes_bool t.executed
  have hnames : AreFields ["position", "owner", "kind", "executed"] := by decide
  refine Json.encodes_record hnames rfl ?_ fun v hv => ?_
  · simp [hposition.legal, howner.legal, haction.legal, hexecuted.legal]
  · simp [ofJson?, Json.fields?, hv, hposition.read, howner.read, haction.read, hexecuted.read]

theorem Transition.encodes_list {ts : List Transition} (h : Fit (ts.flatMap numbers)) :
    Encodes (Json.list? ofJson?) (.array (ts.map toJson)) ts :=
  Json.encodes_list fun t ht => encodes (Json.Number.fit_flatMap.1 h t ht)

theorem Trace.encodes {w : Trace} (h : Fit w.numbers) : Encodes ofJson? w.toJson w := by
  have htransitions := Transition.encodes_list h
  have hnames : AreFields ["transitions"] := by decide
  refine Json.encodes_record hnames rfl ?_ fun v hv => ?_
  · simp [htransitions.legal]
  · simp [ofJson?, Json.fields?, hv, htransitions.read]

theorem Actor.encodes {a : Actor} (h : Fit a.numbers) : Encodes ofJson? a.toJson a := by
  obtain ⟨hid, htransitions⟩ := Json.Number.fit_cons.1 h
  have hid := Json.encodes_nat hid
  have htransitions := Transition.encodes_list htransitions
  have hnames : AreFields ["id", "transitions"] := by decide
  refine Json.encodes_record hnames rfl ?_ fun v hv => ?_
  · simp [hid.legal, htransitions.legal]
  · simp [ofJson?, Json.fields?, hv, hid.read, htransitions.read]

/-! ### Mailboxes and bounds -/

theorem Status.encodes (status : Status) : Encodes ofJson? status.toJson status := by
  cases status
  case pending =>
    refine Json.encodes_name (by decide) fun v hv => ?_
    simp [ofJson?, hv, Json.isNothing]
  case ready =>
    refine Json.encodes_name (by decide) fun v hv => ?_
    simp [ofJson?, hv, Json.isNothing]

theorem Record.encodes {r : Record} (h : Fit r.numbers) : Encodes ofJson? r.toJson r := by
  have howner := Json.encodes_nat (h r.owner (by simp [numbers]))
  have hcomm := Json.encodes_nat (h r.comm (by simp [numbers]))
  have hstatus := r.status.encodes
  have hnames : AreFields ["owner", "comm", "status"] := by decide
  refine Json.encodes_record hnames rfl ?_ fun v hv => ?_
  · simp [howner.legal, hcomm.legal, hstatus.legal]
  · simp [ofJson?, Json.fields?, hv, howner.read, hcomm.read, hstatus.read]

theorem Record.encodes_list {rs : List Record} (h : Fit (rs.flatMap numbers)) :
    Encodes (Json.list? ofJson?) (.array (rs.map toJson)) rs :=
  Json.encodes_list fun r hr => encodes (Json.Number.fit_flatMap.1 h r hr)

theorem Mailbox.encodes {m : Mailbox} (h : Fit m.numbers) : Encodes ofJson? m.toJson m := by
  obtain ⟨hid, hsends, hreceives, hcapacity⟩ : m.id < Json.Number.limit ∧
      Fit (m.sends.flatMap Record.numbers) ∧ Fit (m.receives.flatMap Record.numbers) ∧
        ∀ n ∈ m.capacity, n < Json.Number.limit := by
    simpa [numbers] using h
  have hid := Json.encodes_nat hid
  have hsends := Record.encodes_list hsends
  have hreceives := Record.encodes_list hreceives
  have hcapacity := Json.encodes_optionalNat hcapacity
  have hnames : AreFields ["id", "sends", "receives", "capacity"] := by decide
  refine Json.encodes_record hnames rfl ?_ fun v hv => ?_
  · simp [hid.legal, hsends.legal, hreceives.legal, hcapacity.legal]
  · simp [ofJson?, Json.fields?, hv, hid.read, hsends.read, hreceives.read, hcapacity.read]

theorem Bounds.encodes {b : Bounds} (h : Fit b.numbers) : Encodes ofJson? b.toJson b := by
  obtain ⟨hactor, hlog⟩ := Json.Number.fit_append.1 h
  have hactor := Json.encodes_optionalNat (Json.Number.fit_toList.1 hactor)
  have hlog := Json.encodes_optionalNat (Json.Number.fit_toList.1 hlog)
  have hnames : AreFields ["max_transitions_per_actor", "max_mailbox_log"] := by decide
  refine Json.encodes_record hnames rfl ?_ fun v hv => ?_
  · simp [hactor.legal, hlog.legal]
  · simp [ofJson?, hv, hactor.read, hlog.read]

section Reading

variable {complain : String → String} {text : String}

/-- A text gives the bounds that are read from its value. -/
theorem Bounds.ofText_eq_ok_iff {b : Bounds} :
    Bounds.ofText complain text = .ok b ↔ (Json.ofText? text).bind ofJson? = some b := by
  unfold ofText
  cases (Json.ofText? text).bind ofJson? <;> simp

/-- A text without bounds is the only one that is complained about, in one way. -/
theorem Bounds.ofText_eq_error_iff {error : BuildError} :
    Bounds.ofText complain text = .error error ↔
      (Json.ofText? text).bind ofJson? = none ∧ error = .config (complain text) := by
  unfold ofText
  cases (Json.ofText? text).bind ofJson? <;> simp [eq_comm]

end Reading

/-! ### States -/

namespace State

variable {s : State}

theorem IsSound.encodes_tables (hs : s.IsSound) (h : Fit s.numbers) :
    Encodes tables? s.toJson (s.actors, s.mailboxes) := by
  -- Everything is filed under its own number, so the keys fit as well.
  have hactor : ∀ entry ∈ s.actors.entries,
      entry.1 < Json.Number.limit ∧ Fit entry.2.numbers := by
    rintro ⟨id, a⟩ hentry
    have ha := (Table.mem_entries_iff s.actors id a).1 hentry
    have hfit : Fit a.numbers := fun n hn => h n (mem_numbers_iff.2 (.inl ⟨id, a, ha, hn⟩))
    exact ⟨hs.actor_id ha ▸ (Json.Number.fit_cons.1 hfit).1, hfit⟩
  have hmailbox : ∀ entry ∈ s.mailboxes.entries,
      entry.1 < Json.Number.limit ∧ Fit entry.2.numbers := by
    rintro ⟨id, m⟩ hentry
    have hm := (Table.mem_entries_iff s.mailboxes id m).1 hentry
    have hfit : Fit m.numbers := fun n hn => h n (mem_numbers_iff.2 (.inr ⟨id, m, hm, hn⟩))
    exact ⟨hs.mailbox_id hm ▸ (Json.Number.fit_cons.1 hfit).1, hfit⟩
  have hactors := Json.encodes_table (fun entry hentry => (hactor entry hentry).1)
    fun entry hentry => Actor.encodes (hactor entry hentry).2
  have hmailboxes := Json.encodes_table (fun entry hentry => (hmailbox entry hentry).1)
    fun entry hentry => Mailbox.encodes (hmailbox entry hentry).2
  have hnames : AreFields ["actors", "mailboxes"] := by decide
  refine Json.encodes_record hnames rfl ?_ fun v hv => ?_
  · simp [hactors.legal, hmailboxes.legal]
  · simp [tables?, Json.fields?, hv, hactors.read, hmailboxes.read, Table.ofList_entries]

theorem IsSound.ofText_toText (hs : s.IsSound) (h : Fit s.numbers) : ofText s.toText = .ok s := by
  have htables := hs.encodes_tables h
  simp [ofText, toText, Json.first?_text htables.legal, htables.read, hs.ofTables_eq]

/-- A state read from a text is read back from its own text, and so is every state that a run
from it reaches. -/
theorem ofText_toText_of_replay {text : String} (h : ofText text = .ok s) {w : Trace}
    {s' : State} (hrun : w.replay s = .ok s') : ofText s'.toText = .ok s' :=
  ((isObtained_of_ofText h).isSound.replay hrun).ofText_toText
    (fit_of_replay (fit_of_ofText h) hrun)

/-- **Texts are read back.**  The JSON text of a state is accepted and gives the state itself,
for every state that can be obtained from numbers below the limit and for every state that a
run reaches from one; a state that was read from a text has no other numbers.  The texts of
traces, actors, mailboxes, transitions and bounds give the values that were written. -/
theorem texts_are_read_back :
    (∀ s : State, s.IsObtained → Fit s.numbers →
      ∀ (w : Trace) (s' : State), w.replay s = .ok s' → ofText s'.toText = .ok s') ∧
    (∀ (text : String) (s : State), ofText text = .ok s →
      ∀ (w : Trace) (s' : State), w.replay s = .ok s' → ofText s'.toText = .ok s') ∧
    (∀ w : Trace, Fit w.numbers → (Json.ofText? w.toJson.text).bind Trace.ofJson? = some w) ∧
    (∀ a : Actor, Fit a.numbers → (Json.ofText? a.toJson.text).bind Actor.ofJson? = some a) ∧
    (∀ m : Mailbox, Fit m.numbers →
      (Json.ofText? m.toJson.text).bind Mailbox.ofJson? = some m) ∧
    (∀ t : Transition, Fit t.numbers →
      (Json.ofText? t.toJson.text).bind Transition.ofJson? = some t) ∧
    ∀ b : Bounds, Fit b.numbers → ∀ complain, Bounds.ofText complain b.toJson.text = .ok b := by
  refine ⟨fun s hobtained hfit w s' hrun => ?_, fun text s h w s' => ofText_toText_of_replay h,
    fun w hw => (Trace.encodes hw).ofText?, fun a ha => (Actor.encodes ha).ofText?,
    fun m hm => (Mailbox.encodes hm).ofText?, fun t ht => (Transition.encodes ht).ofText?,
    fun b hb _ => Bounds.ofText_eq_ok_iff.2 (Bounds.encodes hb).ofText?⟩
  exact (hobtained.isSound.replay hrun).ofText_toText (fit_of_replay hfit hrun)

/-- The jumbled state and what its lock makes of it, and values with the largest number that
fits. -/
theorem text_of_jumbled_is_read_back :
    jumbled.IsObtained ∧ ofText jumbled.toText = .ok jumbled ∧
      (∃ s, Trace.replay [⟨⟨0, 3⟩, .lock 0, false⟩] jumbled = .ok s ∧ ofText s.toText = .ok s) ∧
      (let t : Transition := ⟨⟨18446744073709551615, 0⟩, .wait 7 18446744073709551615, true⟩
       let a : Actor := ⟨18446744073709551615, [t, t]⟩
       let m : Mailbox := ⟨0, [⟨1, 2, .ready⟩], [⟨3, 4, .pending⟩], some 18446744073709551615⟩
       let b : Bounds := ⟨none, some 18446744073709551615⟩
       (Json.ofText? (Trace.toJson [t, t]).text).bind Trace.ofJson? = some [t, t] ∧
         (Json.ofText? a.toJson.text).bind Actor.ofJson? = some a ∧
         (Json.ofText? m.toJson.text).bind Mailbox.ofJson? = some m ∧
         (Json.ofText? t.toJson.text).bind Transition.ofJson? = some t ∧
         ∀ complain, Bounds.ofText complain b.toJson.text = .ok b) := by
  obtain ⟨hobtained, hread, htrace, hactor, hmailbox, htransition, hbounds⟩ :=
    texts_are_read_back
  have hload : ofTables jumbled.actors jumbled.mailboxes = .ok jumbled := by decide
  have htext := hobtained jumbled (.loaded hload) (by decide) [] jumbled rfl
  obtain ⟨s, hrun⟩ : ∃ s, Trace.replay [⟨⟨0, 3⟩, .lock 0, false⟩] jumbled = .ok s := ⟨_, rfl⟩
  refine ⟨.loaded hload, htext, ⟨s, hrun, hread _ _ htext _ s hrun⟩, ?_⟩
  exact ⟨htrace _ (by decide), hactor _ (by decide), hmailbox _ (by decide),
    htransition _ (by decide), hbounds _ (by decide)⟩

end State

end Interleaving
