import Interleaving.Proofs.Commutation
import Interleaving.Proofs.Enumeration
import Mathlib.Data.List.Pairwise

/-!
# Classes of runs

`representatives` goes through a list of traces and keeps each one that no kept trace is
equivalent to.  On traces where equivalence is an equivalence relation the kept ones
stand for the classes, each for exactly one, and each is the first member of its class.
The complete runs from a built state are such traces: none of them fires a label twice,
and at a label all of them do what the state has there.  Equivalent ones end in one
state.
-/

namespace Interleaving

variable {ws : List Trace} {w : Trace}

/-! ### The loop -/

/-- One more trace is kept, unless a trace that was kept before is equivalent to it. -/
theorem representatives_append_cases (ws : List Trace) (w : Trace) :
    ((∃ v ∈ representatives ws, v.isEquivalent w = true) ∧
        representatives (ws ++ [w]) = representatives ws) ∨
      ((∀ v ∈ representatives ws, v.isEquivalent w = false) ∧
        representatives (ws ++ [w]) = representatives ws ++ [w]) := by
  have hstep : representatives (ws ++ [w]) =
      if (representatives ws).any (·.isEquivalent w) then representatives ws
      else representatives ws ++ [w] := by
    unfold representatives
    rw [List.foldl_append]
    rfl
  rw [hstep]
  by_cases h : (representatives ws).any (·.isEquivalent w) = true
  · exact .inl ⟨List.any_eq_true.1 h, if_pos h⟩
  · exact .inr ⟨by simpa using h, if_neg h⟩

theorem mem_of_mem_representatives (h : w ∈ representatives ws) : w ∈ ws := by
  induction ws using List.reverseRecOn with
  | nil => exact h
  | append_singleton ws last ih =>
      rcases representatives_append_cases ws last with ⟨-, heq⟩ | ⟨-, heq⟩ <;> rw [heq] at h
      · exact List.mem_append_left _ (ih h)
      · rcases List.mem_append.1 h with hkept | hlast
        · exact List.mem_append_left _ (ih hkept)
        · exact List.mem_append_right _ hlast

/-- No kept trace is equivalent to one that is kept later. -/
theorem pairwise_representatives (ws : List Trace) :
    (representatives ws).Pairwise fun v w => v.isEquivalent w = false := by
  induction ws using List.reverseRecOn with
  | nil => exact List.Pairwise.nil
  | append_singleton ws last ih =>
      rcases representatives_append_cases ws last with ⟨-, heq⟩ | ⟨hnone, heq⟩ <;> rw [heq]
      · exact ih
      · refine List.pairwise_append.2 ⟨ih, List.pairwise_singleton _ _, fun v hv w hw => ?_⟩
        rw [List.mem_singleton.1 hw]
        exact hnone v hv

/-- Each trace is equivalent to a kept one: to itself, or to one that comes before it. -/
theorem exists_representative {R : Trace → Trace → Prop}
    (hrefl : ∀ w ∈ ws, w.isEquivalent w = true) (hordered : ws.Pairwise R) :
    ∀ w ∈ ws, ∃ v ∈ representatives ws, v.isEquivalent w = true ∧ (v = w ∨ R v w) := by
  induction ws using List.reverseRecOn with
  | nil => exact fun w hw => absurd hw List.not_mem_nil
  | append_singleton ws last ih =>
      obtain ⟨hws, -, hlast⟩ := List.pairwise_append.1 hordered
      have hearlier := ih (fun w hw => hrefl w (List.mem_append_left _ hw)) hws
      intro w hw
      rcases representatives_append_cases ws last with ⟨⟨v, hv, hequivalent⟩, heq⟩ | ⟨-, heq⟩ <;>
        rw [heq]
      · rcases List.mem_append.1 hw with hmem | hmem
        · exact hearlier w hmem
        · -- The last trace is not kept: `v` stands for it, which is one of those before.
          rw [List.mem_singleton.1 hmem]
          have hbefore := hlast v (mem_of_mem_representatives hv) last List.mem_cons_self
          exact ⟨v, hv, hequivalent, .inr hbefore⟩
      · rcases List.mem_append.1 hw with hmem | hmem
        · obtain ⟨v, hv, hvw⟩ := hearlier w hmem
          exact ⟨v, List.mem_append_left _ hv, hvw⟩
        · exact ⟨w, List.mem_append_right _ hmem, hrefl w hw, .inl rfl⟩

/-- Traces among which equivalence is an equivalence relation. -/
structure Comparable (ws : List Trace) : Prop where
  nodup : ∀ w ∈ ws, w.labels.Nodup
  agree : ∀ w ∈ ws, ∀ w' ∈ ws, w.Agree w'

namespace Comparable

variable (h : Comparable ws)
include h

theorem refl : ∀ w ∈ ws, w.isEquivalent w = true :=
  fun w hw => Trace.isEquivalent_refl (h.nodup w hw)

theorem agree_of_mem {v : Trace} (hv : v ∈ representatives ws) (hw : w ∈ ws) : v.Agree w :=
  h.agree v (mem_of_mem_representatives hv) w hw

/-- The kept traces are pairwise inequivalent, whichever of two is read first. -/
theorem pairwise : (representatives ws).Pairwise fun v w =>
    v.isEquivalent w = false ∧ w.isEquivalent v = false := by
  refine (pairwise_representatives ws).imp_of_mem fun {v w} hv hw hinequivalent => ?_
  have hback := Trace.isEquivalent_comm (h.agree_of_mem hv (mem_of_mem_representatives hw))
  exact ⟨hinequivalent, hback ▸ hinequivalent⟩

/-- A trace is equivalent to one kept trace only. -/
theorem eq_of_isEquivalent (hw : w ∈ ws) {v v' : Trace} (hv : v ∈ representatives ws)
    (hv' : v' ∈ representatives ws) (hequivalent : v.isEquivalent w = true)
    (hequivalent' : v'.isEquivalent w = true) : v = v' := by
  have hback : w.isEquivalent v' = true :=
    Trace.isEquivalent_symm (h.agree_of_mem hv' hw) hequivalent'
  have hboth : v.isEquivalent v' = true :=
    Trace.isEquivalent_trans (h.agree_of_mem hv hw) hequivalent hback
  have hsymm : Std.Symm fun v w : Trace => v.isEquivalent w = false ∧ w.isEquivalent v = false :=
    ⟨fun _ _ hinequivalent => hinequivalent.symm⟩
  by_contra hne
  have hinequivalent := (h.pairwise.forall hv hv' hne).1
  rw [hboth] at hinequivalent
  cases hinequivalent

theorem existsUnique (hw : w ∈ ws) :
    ∃! v, v ∈ representatives ws ∧ v.isEquivalent w = true := by
  have hordered : ws.Pairwise fun _ _ => True := List.pairwise_of_forall fun _ _ => trivial
  obtain ⟨v, hv, hequivalent, -⟩ := exists_representative h.refl hordered w hw
  exact ⟨v, ⟨hv, hequivalent⟩, fun v' hv' =>
    h.eq_of_isEquivalent hw hv'.1 hv hv'.2 hequivalent⟩

theorem shared_iff (hw : w ∈ ws) (w' : Trace) :
    (∃ v ∈ representatives ws, v.isEquivalent w = true ∧ v.isEquivalent w' = true) ↔
      w.isEquivalent w' = true := by
  constructor
  · rintro ⟨v, hv, hequivalent, hequivalent'⟩
    have hback := Trace.isEquivalent_symm (h.agree_of_mem hv hw) hequivalent
    exact Trace.isEquivalent_trans (h.agree w hw v (mem_of_mem_representatives hv)) hback
      hequivalent'
  · intro hequivalent
    obtain ⟨v, ⟨hv, hfirst⟩, -⟩ := h.existsUnique hw
    exact ⟨v, hv, hfirst, Trace.isEquivalent_trans (h.agree_of_mem hv hw) hfirst hequivalent⟩

/-- If the traces are in order, the first one of a class is its least one. -/
theorem least {R : Trace → Trace → Prop} (hordered : ws.Pairwise R) {v : Trace}
    (hv : v ∈ representatives ws) (hw : w ∈ ws) (hequivalent : v.isEquivalent w = true) :
    v = w ∨ R v w := by
  obtain ⟨first, hfirst, hequivalent', hbefore⟩ := exists_representative h.refl hordered w hw
  rwa [h.eq_of_isEquivalent hw hv hfirst hequivalent hequivalent']

end Comparable

namespace State

variable {s s' : State}

/-! ### The complete runs can be compared -/

/-- A run does at each label what the state has there. -/
theorem describes_of_mem_completeRuns (hsound : s.IsSound) (hplaced : s.IsPlaced) :
    ∀ run ∈ completeRuns s, s.Describes run.trace := by
  refine successor_induction hsound hplaced fun s hsound hplaced ih run hrun u hu => ?_
  rcases (mem_completeRuns_iff hplaced).1 hrun with
    ⟨-, rfl⟩ | ⟨t, ht, next, hnext, rest, hrest, rfl⟩
  · cases hu
  · rcases List.mem_cons.1 hu with rfl | hu
    · exact action?_of_mem_enabled hsound hplaced ht
    · rw [← action?_of_execute hnext]
      exact ih t ht next hnext rest hrest u hu

theorem comparable_completeRuns (hinitial : s.IsInitial) :
    Comparable ((completeRuns s).map Run.trace) := by
  have hdescribes := describes_of_mem_completeRuns hinitial.isSound hinitial.isPlaced
  constructor
  · intro w hw
    obtain ⟨run, hrun, rfl⟩ := List.mem_map.1 hw
    obtain ⟨hreplay, -⟩ :=
      replay_of_mem_completeRuns hinitial.isSound hinitial.isPlaced run hrun
    exact (hinitial.replay_eq_ok_iff.1 hreplay).1.nodup
  · intro w hw w' hw'
    obtain ⟨run, hrun, rfl⟩ := List.mem_map.1 hw
    obtain ⟨run', hrun', rfl⟩ := List.mem_map.1 hw'
    exact (hdescribes run hrun).agree (hdescribes run' hrun')

/-- Equivalent runs end in one state. -/
theorem final_eq_of_isEquivalent (hinitial : s.IsInitial) {run run' : Run}
    (hrun : run ∈ completeRuns s) (hrun' : run' ∈ completeRuns s)
    (h : run.trace.isEquivalent run'.trace = true) : run.final = run'.final := by
  have hsound := hinitial.isSound
  have hplaced := hinitial.isPlaced
  obtain ⟨-, c, hswaps, hlabels⟩ := (Trace.isEquivalent_iff_exists_swaps _ _).1 h
  have hrearranges :=
    rearranges_of_swaps (describes_of_mem_completeRuns hsound hplaced run hrun) hswaps
  have hreplay := (replay_of_mem_completeRuns hsound hplaced run hrun).1
  have hreplay' := (replay_of_mem_completeRuns hsound hplaced run' hrun').1
  calc run.final
    _ = s.after run.trace.labels := (hinitial.replay_eq_ok_iff.1 hreplay).2
    _ = s.after c.labels := hrearranges.after_eq
    _ = s.after run'.trace.labels := by rw [hlabels]
    _ = run'.final := (hinitial.replay_eq_ok_iff.1 hreplay').2.symm

/-! ### The classes of the complete runs -/

/-- The traces `firsts` stand for the classes of equivalent runs. -/
structure StandFor (firsts : List Trace) (runs : List Run) : Prop where
  /-- No two of them are equivalent. -/
  inequivalent : firsts.Pairwise fun v w => v.isEquivalent w = false ∧ w.isEquivalent v = false
  /-- Among the runs it does not matter which of two traces is read first. -/
  comm : ∀ run ∈ runs, ∀ run' ∈ runs,
    run.trace.isEquivalent run'.trace = run'.trace.isEquivalent run.trace
  /-- One of them stands for each run. -/
  existsUnique : ∀ run ∈ runs, ∃! v, v ∈ firsts ∧ v.isEquivalent run.trace = true
  /-- One stands for two runs iff these are equivalent. -/
  shared_iff : ∀ run ∈ runs, ∀ run' ∈ runs,
    (∃ v ∈ firsts, v.isEquivalent run.trace = true ∧ v.isEquivalent run'.trace = true) ↔
      run.trace.isEquivalent run'.trace = true
  /-- Each of them is the trace of a run. -/
  exists_run : ∀ v ∈ firsts, ∃ run ∈ runs, run.trace = v
  /-- In its class it is the least one in lexicographic order. -/
  least : ∀ v ∈ firsts, ∀ run ∈ runs, v.isEquivalent run.trace = true →
    v = run.trace ∨ v.Precedes run.trace
  /-- Equivalent runs, so a run and the one that stands for it, end in one state. -/
  final_eq : ∀ run ∈ runs, ∀ run' ∈ runs,
    run.trace.isEquivalent run'.trace = true → run.final = run'.final
  /-- No end state is missed. -/
  finals_eq : {s | ∃ run ∈ runs, run.trace ∈ firsts ∧ run.final = s} =
    {s | ∃ run ∈ runs, run.final = s}

/-- **One run for each class.**  The traces that the loop keeps among the complete runs
from a built state stand for the classes of these runs. -/
theorem representatives_standFor_completeRuns {s₀ : State} (hbuilt : s₀.IsBuilt) :
    StandFor (representatives ((completeRuns s₀).map Run.trace)) (completeRuns s₀) := by
  have hinitial := hbuilt.isInitial
  have hcomparable := comparable_completeRuns hinitial
  have hordered : ((completeRuns s₀).map Run.trace).Pairwise Trace.Precedes :=
    List.pairwise_map.2 (pairwise_precedes_completeRuns hinitial.isSound hinitial.isPlaced)
  have hmem : ∀ run ∈ completeRuns s₀, run.trace ∈ (completeRuns s₀).map Run.trace :=
    fun run hrun => List.mem_map_of_mem hrun
  have hkept : ∀ v ∈ representatives ((completeRuns s₀).map Run.trace),
      ∃ run ∈ completeRuns s₀, run.trace = v :=
    fun v hv => List.mem_map.1 (mem_of_mem_representatives hv)
  constructor
  case inequivalent => exact hcomparable.pairwise
  case comm =>
    intro run hrun run' hrun'
    exact Trace.isEquivalent_comm (hcomparable.agree _ (hmem run hrun) _ (hmem run' hrun'))
  case existsUnique => exact fun run hrun => hcomparable.existsUnique (hmem run hrun)
  case shared_iff =>
    exact fun run hrun run' _ => hcomparable.shared_iff (hmem run hrun) run'.trace
  case exists_run => exact hkept
  case least => exact fun v hv run hrun => hcomparable.least hordered hv (hmem run hrun)
  case final_eq => exact fun run hrun run' hrun' => final_eq_of_isEquivalent hinitial hrun hrun'
  case finals_eq =>
    ext s
    constructor
    · rintro ⟨run, hrun, -, hfinal⟩
      exact ⟨run, hrun, hfinal⟩
    · -- The run that stands for a run ends where it ends.
      rintro ⟨run, hrun, rfl⟩
      obtain ⟨v, ⟨hv, hequivalent⟩, -⟩ := hcomparable.existsUnique (hmem run hrun)
      obtain ⟨first, hfirst, rfl⟩ := hkept v hv
      exact ⟨first, hfirst, hv, final_eq_of_isEquivalent hinitial hfirst hrun hequivalent⟩

/-- The order of the two letters is all that matters. -/
theorem representatives_standFor_letterbox :
    letterbox.IsBuilt ∧
      StandFor (representatives ((completeRuns letterbox).map Run.trace))
        (completeRuns letterbox) ∧
      (completeRuns letterbox).length = 12 ∧
      (representatives ((completeRuns letterbox).map Run.trace)).map Trace.labels =
        [[⟨0, 0⟩, ⟨0, 1⟩, ⟨0, 2⟩, ⟨1, 2⟩], [⟨0, 1⟩, ⟨0, 0⟩, ⟨0, 2⟩, ⟨1, 2⟩]] :=
  ⟨letterbox_isBuilt, representatives_standFor_completeRuns letterbox_isBuilt, by decide +kernel,
    by decide +kernel⟩

end State

end Interleaving
