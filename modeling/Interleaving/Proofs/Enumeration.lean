import Interleaving.Proofs.Budget
import Mathlib.Data.List.Lex

/-!
# The complete runs

`State.Searches` is the search that `explore` performs, without a guard against runs
that do not end: a derivation exists only if every branch comes to its end.  From a
sound and placed state the guard never holds a branch back, the search ends, and what it
collects are the traces that can be replayed up to a terminal state, each of them once
and in lexicographic order of the labels.
-/

namespace Interleaving

namespace Trace

/-- The labels of `w` come before those of `w'` in lexicographic order. -/
def Precedes (w w' : Trace) : Prop :=
  List.Lex (fun l l' => compare l l' = .lt) w.labels w'.labels

/-- A trace precedes another iff its labels are a proper beginning of the other's, or iff at the
first difference its label has the smaller position, or the same position and the smaller
owner. -/
theorem precedes_iff {w w' : Trace} : w.Precedes w' ↔
    (∃ l rest, w'.labels = w.labels ++ l :: rest) ∨
      ∃ past l l' rest rest', w.labels = past ++ l :: rest ∧ w'.labels = past ++ l' :: rest' ∧
        (l.position < l'.position ∨ l.position = l'.position ∧ l.owner < l'.owner) := by
  unfold Precedes
  generalize w.labels = ls
  generalize w'.labels = ls'
  constructor
  · intro h
    induction h with
    | @nil l rest => exact .inl ⟨l, rest, rfl⟩
    | @rel l rest l' rest' hlt =>
        exact .inr ⟨[], l, l', rest, rest', rfl, rfl, Label.compare_eq_lt_iff.1 hlt⟩
    | @cons first _ _ _ ih =>
        rcases ih with ⟨l, rest, hmore⟩ | ⟨past, l, l', rest, rest', hls, hls', hlt⟩
        · exact .inl ⟨l, rest, by rw [hmore, List.cons_append]⟩
        · refine .inr ⟨first :: past, l, l', rest, rest', ?_, ?_, hlt⟩
          · rw [hls, List.cons_append]
          · rw [hls', List.cons_append]
  · rintro (⟨l, rest, rfl⟩ | ⟨past, l, l', rest, rest', rfl, rfl, hlt⟩)
    · simpa using List.Lex.append_left (fun l l' => compare l l' = .lt) (.nil (l := rest)) ls
    · have hfirst : compare l l' = .lt := Label.compare_eq_lt_iff.2 hlt
      exact List.Lex.append_left (fun l l' => compare l l' = .lt) (.rel hfirst) past

theorem Precedes.labels_ne {w w' : Trace} (h : w.Precedes w') : w.labels ≠ w'.labels := by
  intro heq
  unfold Precedes at h
  rw [heq] at h
  exact List.lex_irrefl (fun l hlt => by simp at hlt) _ h

end Trace

namespace State

variable {s s' : State}

theorem isTerminal_iff : s.isTerminal = true ↔ s.enabled = [] := List.isEmpty_iff

/-- Depth-first search without a guard.  In `s`, with `w` fired so far, it collects
`runs`: `w` itself if nothing is enabled, and otherwise what the enabled transitions
lead to, one after the other.  One that is refused leads to nothing. -/
inductive Searches : State → Trace → List Run → Prop
  | ended {s : State} (w : Trace) (h : s.enabled = []) : Searches s w [⟨w, s⟩]
  | branched {s : State} {w : Trace} {found : Transition → List Run} (h : s.enabled ≠ [])
      (hfired : ∀ t ∈ s.enabled, ∀ next, s.execute t.label = .ok next →
        Searches next (w.record t) (found t))
      (hrefused : ∀ t ∈ s.enabled, ∀ error, s.execute t.label = .error error → found t = []) :
      Searches s w (s.enabled.flatMap found)

/-- The search has one result. -/
theorem Searches.unique {w : Trace} {runs runs' : List Run} (h : Searches s w runs)
    (h' : Searches s w runs') : runs = runs' := by
  induction h generalizing runs' with
  | ended w hnil =>
      cases h' with
      | ended => rfl
      | branched hne => exact absurd hnil hne
  | @branched s w found hne hfired hrefused ih =>
      cases h' with
      | ended _ hnil => exact absurd hnil hne
      | @branched _ _ found' _ hfired' hrefused' =>
          refine List.flatMap_congr fun t ht => ?_
          cases hexecute : s.execute t.label with
          | ok next => exact ih t ht next hexecute (hfired' t ht next hexecute)
          | error error => rw [hrefused t ht error hexecute, hrefused' t ht error hexecute]

/-! ### One level of the search -/

/-- The complete runs that begin with this transition. -/
def runsAfter (s : State) (t : Transition) : List Run :=
  match s.execute t.label with
  | .error _ => []
  | .ok next => (completeRuns next).map fun run => { run with trace := t :: run.trace }

theorem runsAfter_of_ok {t : Transition} {next : State} (h : s.execute t.label = .ok next) :
    s.runsAfter t =
      (completeRuns next).map fun run => { run with trace := t :: run.trace } := by
  unfold runsAfter
  rw [h]

theorem runsAfter_of_error {t : Transition} {error : ModelError}
    (h : s.execute t.label = .error error) : s.runsAfter t = [] := by
  unfold runsAfter
  rw [h]

theorem completeRuns_of_terminal (h : s.enabled = []) : completeRuns s = [⟨[], s⟩] := by
  unfold completeRuns
  rw [explore, h]
  rfl

/-- A branch of the exploration holds the runs that begin with its transition. -/
theorem completeRuns_of_enabled (hplaced : s.IsPlaced) (h : s.enabled ≠ []) :
    completeRuns s = s.enabled.flatMap s.runsAfter := by
  unfold completeRuns
  rw [explore]
  split
  case h_1 hnil => exact absurd hnil h
  case h_2 =>
    rw [List.filterMap_flatMap]
    refine List.flatMap_congr fun t _ => ?_
    split
    case h_1 error herror => rw [runsAfter_of_error herror]; rfl
    case h_2 next hok =>
      -- The guard holds nothing back, since the budget falls.
      rw [dif_pos (budget_lt_of_execute hplaced hok), runsAfter_of_ok hok, List.filterMap_map,
        completeRuns, List.map_filterMap]
      refine List.filterMap_congr fun outcome _ => ?_
      cases outcome <;> rfl

theorem mem_runsAfter_iff {t : Transition} {run : Run} :
    run ∈ s.runsAfter t ↔ ∃ next, s.execute t.label = .ok next ∧
      ∃ rest ∈ completeRuns next, run = ⟨t :: rest.trace, rest.final⟩ := by
  cases h : s.execute t.label with
  | error error => simp [runsAfter_of_error h]
  | ok next => simp [runsAfter_of_ok h, eq_comm]

theorem mem_completeRuns_iff (hplaced : s.IsPlaced) {run : Run} :
    run ∈ completeRuns s ↔ (s.enabled = [] ∧ run = ⟨[], s⟩) ∨
      ∃ t ∈ s.enabled, ∃ next, s.execute t.label = .ok next ∧
        ∃ rest ∈ completeRuns next, run = ⟨t :: rest.trace, rest.final⟩ := by
  by_cases h : s.enabled = []
  · simp [completeRuns_of_terminal h, h]
  · simp only [completeRuns_of_enabled hplaced h, List.mem_flatMap, mem_runsAfter_iff, h,
      false_and, false_or]

/-! ### The whole search -/

/-- Each trace that can be replayed up to a terminal state is found. -/
theorem exists_mem_completeRuns {w : Trace} (hsound : s.IsSound) (hplaced : s.IsPlaced)
    (hreplay : w.replay s = .ok s') (hterminal : s'.isTerminal = true) :
    ∃ run ∈ completeRuns s, run.trace.labels = w.labels ∧ run.final = s' := by
  induction w generalizing s with
  | nil =>
      cases hreplay
      have hnil := isTerminal_iff.1 hterminal
      exact ⟨⟨[], s'⟩, (mem_completeRuns_iff hplaced).2 (.inl ⟨hnil, rfl⟩), rfl, rfl⟩
  | cons u w ih =>
      obtain ⟨next, hnext, hrest⟩ := Trace.replay_cons_eq_ok_iff.1 hreplay
      obtain ⟨run, hrun, hlabels, hfinal⟩ :=
        ih (hsound.execute hnext) (hplaced.execute hnext) hrest
      -- The search goes on with the enabled transition that has the label of `u`.
      obtain ⟨t, ht, hlabel, -⟩ := exists_fires_of_execute hsound hplaced hnext
      refine ⟨⟨t :: run.trace, run.final⟩, (mem_completeRuns_iff hplaced).2 (.inr ?_), ?_, hfinal⟩
      · exact ⟨t, ht, next, hlabel ▸ hnext, run, hrun, rfl⟩
      · show t.label :: run.trace.labels = u.label :: Trace.labels w
        rw [hlabel, hlabels]

section Search

variable (hsound : s.IsSound) (hplaced : s.IsPlaced)
include hsound hplaced

/-- Each run that is found can be replayed, and ends where nothing is enabled. -/
theorem replay_of_mem_completeRuns :
    ∀ run ∈ completeRuns s, run.trace.replay s = .ok run.final ∧ run.final.isTerminal = true := by
  refine successor_induction hsound hplaced fun s _ hplaced ih run hrun => ?_
  rcases (mem_completeRuns_iff hplaced).1 hrun with
    ⟨hnil, rfl⟩ | ⟨t, ht, next, hnext, rest, hrest, rfl⟩
  · exact ⟨rfl, isTerminal_iff.2 hnil⟩
  · obtain ⟨hreplay, hterminal⟩ := ih t ht next hnext rest hrest
    exact ⟨Trace.replay_cons_eq_ok_iff.2 ⟨next, hnext, hreplay⟩, hterminal⟩

/-- The runs are found in the order of their labels. -/
theorem pairwise_precedes_completeRuns :
    (completeRuns s).Pairwise fun run run' => run.trace.Precedes run'.trace := by
  refine successor_induction hsound hplaced fun s _ hplaced ih => ?_
  by_cases hnil : s.enabled = []
  · rw [completeRuns_of_terminal hnil]
    exact List.pairwise_singleton _ _
  · rw [completeRuns_of_enabled hplaced hnil, List.pairwise_flatMap]
    constructor
    · -- Runs that begin with one transition.
      intro t ht
      cases hnext : s.execute t.label with
      | error error =>
          rw [runsAfter_of_error hnext]
          exact List.Pairwise.nil
      | ok next =>
          rw [runsAfter_of_ok hnext, List.pairwise_map]
          exact (ih t ht next hnext).imp fun hprecedes => List.Lex.cons hprecedes
    · -- Runs that begin with different transitions.
      have hascending : Ascending Transition.label s.enabled := ascending_ascendingBy _
      refine hascending.imp fun {t u} hlt run hrun run' hrun' => ?_
      obtain ⟨-, -, rest, -, rfl⟩ := mem_runsAfter_iff.1 hrun
      obtain ⟨-, -, rest', -, rfl⟩ := mem_runsAfter_iff.1 hrun'
      exact List.Lex.rel hlt

/-- The search ends, with the complete runs behind what was fired before. -/
theorem searches_completeRuns :
    ∀ w : Trace, Searches s w ((completeRuns s).map fun run => ⟨w ++ run.trace, run.final⟩) := by
  refine successor_induction hsound hplaced fun s _ hplaced ih w => ?_
  by_cases hnil : s.enabled = []
  · rw [completeRuns_of_terminal hnil]
    simpa using Searches.ended w hnil
  · rw [completeRuns_of_enabled hplaced hnil, List.map_flatMap]
    refine .branched hnil (fun t ht next hnext => ?_) fun t _ error herror => ?_
    · rw [runsAfter_of_ok hnext, List.map_map]
      simpa [Function.comp_def, Trace.record] using ih t ht next hnext (w.record t)
    · rw [runsAfter_of_error herror]
      rfl

end Search

/-- **Exploration enumerates the complete runs.**  From a built state the search ends; it
finds a trace with its final state iff the trace can be replayed up to that state and the
state is terminal; and it finds each such trace once, in lexicographic order. -/
theorem completeRuns_enumerate {s₀ : State} (hbuilt : s₀.IsBuilt) :
    (∀ runs, Searches s₀ [] runs ↔ runs = completeRuns s₀) ∧
    (∀ (w : Trace) (s : State),
      (∃ run ∈ completeRuns s₀, run.trace.labels = w.labels ∧ run.final = s) ↔
        w.replay s₀ = .ok s ∧ s.isTerminal = true) ∧
    (∀ (w : Trace) (s : State), w.replay s₀ = .ok s → s.isTerminal = true →
      ((completeRuns s₀).map fun run => run.trace.labels).count w.labels = 1) ∧
    (completeRuns s₀).Pairwise fun run run' => run.trace.Precedes run'.trace := by
  have hsound := hbuilt.isInitial.isSound
  have hplaced := hbuilt.isInitial.isPlaced
  have hsearch : Searches s₀ [] (completeRuns s₀) := by
    simpa using searches_completeRuns hsound hplaced []
  have hordered := pairwise_precedes_completeRuns hsound hplaced
  refine ⟨fun runs => ⟨fun h => h.unique hsearch, fun h => h ▸ hsearch⟩, fun w s => ⟨?_, ?_⟩,
    fun w s hreplay hterminal => ?_, hordered⟩
  · rintro ⟨run, hrun, hlabels, rfl⟩
    rw [← Trace.replay_congr hlabels]
    exact replay_of_mem_completeRuns hsound hplaced run hrun
  · rintro ⟨hreplay, hterminal⟩
    exact exists_mem_completeRuns hsound hplaced hreplay hterminal
  · obtain ⟨run, hrun, hlabels, -⟩ := exists_mem_completeRuns hsound hplaced hreplay hterminal
    have hnodup : ((completeRuns s₀).map fun run => run.trace.labels).Nodup :=
      List.pairwise_map.2 (hordered.imp Trace.Precedes.labels_ne)
    exact List.count_eq_one_of_mem hnodup (List.mem_map.2 ⟨run, hrun, hlabels⟩)

theorem completeRuns_rendezvous_enumerate :
    rendezvous.IsBuilt ∧ (rendezvous.after meeting.labels).isTerminal = true ∧
      Searches rendezvous [] (completeRuns rendezvous) ∧
      (∃ run ∈ completeRuns rendezvous, run.trace.labels = meeting.labels ∧
        run.final = rendezvous.after meeting.labels) ∧
      (¬ ∃ run ∈ completeRuns rendezvous, run.trace.labels = impatience.labels) ∧
      ((completeRuns rendezvous).map fun run => run.trace.labels).count meeting.labels = 1 := by
  obtain ⟨hsearch, hfound, hcount, -⟩ := completeRuns_enumerate rendezvous_isBuilt
  have hreplay : meeting.replay rendezvous = .ok (rendezvous.after meeting.labels) := by decide
  have hterminal : (rendezvous.after meeting.labels).isTerminal = true := by decide
  have hstopped : impatience.replay rendezvous = .error (.notEnabled ⟨1, 1⟩) := by decide
  refine ⟨rendezvous_isBuilt, hterminal, (hsearch _).2 rfl, (hfound _ _).2 ⟨hreplay, hterminal⟩,
    ?_, hcount _ _ hreplay hterminal⟩
  rintro ⟨run, hrun, hlabels⟩
  obtain ⟨hok, -⟩ := (hfound impatience run.final).1 ⟨run, hrun, hlabels, rfl⟩
  rw [hstopped] at hok
  cases hok

end State

end Interleaving
