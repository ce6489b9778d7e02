import FiniteState.Construction.Regular
import FiniteState.Proofs.Automaton.Spectrum
import FiniteState.Proofs.Handle.Reduction
import FiniteState.Proofs.Handle.Simulation
import FiniteState.Proofs.Handle.Trace
import FiniteState.Proofs.Handle.WeakBisimulation
import FiniteState.Proofs.Relation.Containment
import Mathlib.Tactic.TFAE
/-!
How the verdicts on two automata depend on each other.  Each way to compare automata is decided
exactly, so the verdicts are ordered as the relations between states are: what is found to be
bisimilar is found to be weakly bisimilar and to simulate each other, and from there the languages
and the traces follow.  For deterministic automata without useless states the order collapses.
-/

namespace FiniteState

universe u

variable {L : Type u} [Label L]

section Comparison

variable {T left right : Tagged L} {w : List L}

/-- The traces of the initial states are the words that can be read, other than the empty one. -/
theorem Tagged.mem_tracesFrom_initials :
    w ∈ T.tracesFrom T.initials ↔ w ≠ [] ∧ w ∈ T.automaton.readable := by
  refine and_congr_right fun _ => ?_
  constructor
  · rintro ⟨_, hh, -, hw⟩
    obtain ⟨p, hp, rfl⟩ := mem_initials.mp hh
    exact ⟨p, hp, hw⟩
  · rintro ⟨p, hp, hw⟩
    have hcontains := contains_handle.mpr (Automaton.lt_size_of_isInitial hp)
    exact ⟨T.handle p, mem_initials.mpr ⟨p, hp, rfl⟩, hcontains, hw⟩

/-- The automata are found to be equivalent exactly if the same words other than the empty one can
be read. -/
theorem Comparison.areEquivalent_traces_iff :
    (between left right .traces).areEquivalent.1 = true ↔
      ∀ w, w ≠ [] → (w ∈ left.automaton.readable ↔ w ∈ right.automaton.readable) := by
  have htold : TellsApart (between left right .traces).areEquivalent
      (left.tracesFrom left.initials) (right.tracesFrom right.initials) :=
    tellsApart_of_differs_iff fun _ => differs_traces_iff
  rw [htold.holds_iff, Language.ext_iff]
  apply forall_congr'
  intro w
  rw [Tagged.mem_tracesFrom_initials, Tagged.mem_tracesFrom_initials]
  exact and_congr_right_iff

end Comparison

section Ordered

namespace Coinductive

variable {left right : Tagged L} {history : List Question}

theorem weakBisimulation_of_bisimulation
    (hfound : ((bisimulation left right).after history).areEquivalent.1 = true)
    (history' : List Question) :
    ((weakBisimulation left right).after history').areEquivalent.1 = true := by
  obtain ⟨hforth, hback⟩ := (areEquivalent_bisimulation_after_iff history).mp hfound
  rw [areEquivalent_weakBisimulation_after_iff]
  constructor
  · exact InitialsAnswered.mono hforth fun _ _ hpq => hpq.weaklyBisimilar
  · exact InitialsAnswered.mono hback fun _ _ hpq => hpq.weaklyBisimilar

/-- Bisimilar automata simulate each other. -/
theorem simulation_of_bisimulation
    (hfound : ((bisimulation left right).after history).areEquivalent.1 = true)
    (history' : List Question) :
    ((simulation left right).after history').areEquivalent.1 = true ∧
      ((simulation right left).after history').areEquivalent.1 = true := by
  obtain ⟨hforth, hback⟩ := (areEquivalent_bisimulation_after_iff history).mp hfound
  rw [areEquivalent_simulation_after_iff, areEquivalent_simulation_after_iff]
  constructor
  · exact InitialsAnswered.mono hforth fun _ _ hpq => hpq.simulatedBy
  · exact InitialsAnswered.mono hback fun _ _ hpq => hpq.symm.simulatedBy

theorem traces_of_weakBisimulation
    (hfound : ((weakBisimulation left right).after history).areEquivalent.1 = true)
    (history' : List Question) :
    ((Comparison.between left right .traces).after history').areEquivalent.1 = true := by
  obtain ⟨hforth, hback⟩ := (areEquivalent_weakBisimulation_after_iff history).mp hfound
  have hreadable := hforth.readable_eq hback fun _ _ hpq => hpq.readableFrom_eq
  rw [Comparison.areEquivalent_after, Comparison.areEquivalent_traces_iff]
  exact fun w _ => hreadable ▸ Iff.rfl

theorem language_of_weakBisimulation
    (hfound : ((weakBisimulation left right).after history).areEquivalent.1 = true)
    (history' : List Question) :
    ((Comparison.between left right .language).after history').areEquivalent.1 = true := by
  obtain ⟨hforth, hback⟩ := (areEquivalent_weakBisimulation_after_iff history).mp hfound
  rw [Comparison.areEquivalent_after, Comparison.areEquivalent_language_iff,
    ← Automaton.language_eq_iff]
  exact hforth.language_eq hback fun _ _ hpq => hpq.languageFrom_eq

/-- What is simulated accepts no more. -/
theorem satisfies_of_simulation
    (hfound : ((simulation left right).after history).areEquivalent.1 = true) :
    left.automaton.satisfies right.automaton = true := by
  have hsimulated := (areEquivalent_simulation_after_iff history).mp hfound
  rw [Automaton.satisfies_iff]
  exact fun w => hsimulated.exists_initial fun _ _ hpq => hpq.mem_languageFrom

theorem readable_of_simulation
    (hfound : ((simulation left right).after history).areEquivalent.1 = true) {w : List L}
    (hw : w ∈ left.automaton.readable) : w ∈ right.automaton.readable := by
  have hsimulated := (areEquivalent_simulation_after_iff history).mp hfound
  exact hsimulated.exists_initial (fun _ _ hpq => hpq.mem_readableFrom) hw

end Coinductive

/-- The verdicts of the relations are ordered.  Bisimulation is the finest one; weak bisimulation is
finer than the equivalences of traces and of languages; and what is simulated accepts and reads no
more. -/
theorem verdicts_are_ordered (left right : Tagged L) (history history' : List Question) :
    (((Coinductive.bisimulation left right).after history).areEquivalent.1 = true →
      ((Coinductive.weakBisimulation left right).after history').areEquivalent.1 = true ∧
      ((Coinductive.simulation left right).after history').areEquivalent.1 = true ∧
      ((Coinductive.simulation right left).after history').areEquivalent.1 = true) ∧
    (((Coinductive.weakBisimulation left right).after history).areEquivalent.1 = true →
      ((Comparison.between left right .traces).after history').areEquivalent.1 = true ∧
      ((Comparison.between left right .language).after history').areEquivalent.1 = true) ∧
    (((Coinductive.simulation left right).after history).areEquivalent.1 = true →
      left.automaton.satisfies right.automaton = true ∧
      ∀ w ∈ left.automaton.readable, w ∈ right.automaton.readable) := by
  refine ⟨fun hfound => ?_, fun hfound => ?_, fun hfound => ?_⟩
  · exact ⟨Coinductive.weakBisimulation_of_bisimulation hfound history',
      Coinductive.simulation_of_bisimulation hfound history'⟩
  · exact ⟨Coinductive.traces_of_weakBisimulation hfound history',
      Coinductive.language_of_weakBisimulation hfound history'⟩
  · exact ⟨Coinductive.satisfies_of_simulation hfound,
      fun _ => Coinductive.readable_of_simulation hfound⟩

/-- An automaton that reads `a`, moves silently and reads `b`. -/
def pauseSample : Automaton Char :=
  (Automaton.letter 'a').concatenation (.letter 'b')

/-- An automaton that reads any word over `a` and `b`. -/
def anythingSample : Automaton Char :=
  .ofParts [⟨true, true⟩] [⟨0, some 'a', 0⟩, ⟨0, some 'b', 0⟩]

/-- The sample with a choice is bisimilar to that without one, a pause does not matter to weak
bisimulation, and whatever reads `ab` is simulated by what reads anything. -/
theorem verdicts_on_samples_are_ordered :
    (Coinductive.bisimulation ⟨0, forkSample⟩ ⟨1, pathSample⟩).areEquivalent.1 = true ∧
      (Coinductive.simulation ⟨1, pathSample⟩ ⟨0, forkSample⟩).areEquivalent.1 = true ∧
    (Coinductive.bisimulation ⟨0, pauseSample⟩ ⟨1, .word ['a', 'b']⟩).areEquivalent.1 = false ∧
      (Coinductive.weakBisimulation ⟨0, pauseSample⟩ ⟨1, .word ['a', 'b']⟩).areEquivalent.1 = true ∧
      (Comparison.between ⟨0, pauseSample⟩ ⟨1, .word ['a', 'b']⟩ .traces).areEquivalent.1 = true ∧
    (Coinductive.simulation ⟨0, .word ['a', 'b']⟩ ⟨1, anythingSample⟩).areEquivalent.1 = true ∧
      (Automaton.word ['a', 'b']).satisfies anythingSample = true := by
  have hbisimilar :
      (Coinductive.bisimulation ⟨0, forkSample⟩ ⟨1, pathSample⟩).areEquivalent.1 = true := by
    decide +kernel
  have hdiffer : (Coinductive.bisimulation ⟨0, pauseSample⟩
      ⟨1, .word ['a', 'b']⟩).areEquivalent.1 = false := by
    decide +kernel
  have hweak : (Coinductive.weakBisimulation ⟨0, pauseSample⟩
      ⟨1, .word ['a', 'b']⟩).areEquivalent.1 = true := by
    decide +kernel
  have hsimulated : (Coinductive.simulation ⟨0, .word ['a', 'b']⟩
      ⟨1, anythingSample⟩).areEquivalent.1 = true := by
    decide +kernel
  have hfine := (verdicts_are_ordered ⟨0, forkSample⟩ ⟨1, pathSample⟩ [] []).1 hbisimilar
  have hcoarse := (verdicts_are_ordered ⟨0, pauseSample⟩ ⟨1, .word ['a', 'b']⟩ [] []).2.1 hweak
  have hcontained :=
    (verdicts_are_ordered ⟨0, .word ['a', 'b']⟩ ⟨1, anythingSample⟩ [] []).2.2 hsimulated
  exact ⟨hbisimilar, hfine.2.2, hdiffer, hweak, hcoarse.1, hsimulated, hcontained.1⟩

end Ordered

section Deterministic

/-- Into a deterministic automaton, simulation is containment of the languages, if the automaton on
the left has neither silent moves nor useless states.  Between deterministic automata without
useless states, bisimulation and weak bisimulation are equality of the languages. -/
theorem verdicts_collapse_on_deterministic (left right : Tagged L)
    (history history' history'' : List Question) :
    (left.automaton.isEpsilonFree = true → right.automaton.isDeterministic = true →
      left.automaton.Trim →
      (((Coinductive.simulation left right).after history).areEquivalent.1 = true ↔
        left.automaton.satisfies right.automaton = true)) ∧
    (left.automaton.isDeterministic = true → right.automaton.isDeterministic = true →
      left.automaton.Trim → right.automaton.Trim →
      [((Coinductive.bisimulation left right).after history).areEquivalent.1 = true,
        ((Coinductive.weakBisimulation left right).after history').areEquivalent.1 = true,
        ((Comparison.between left right .language).after history'').areEquivalent.1 = true].TFAE) := by
  constructor
  · intro hfree hdeterministic htrim
    rw [Automaton.isEpsilonFree_iff] at hfree
    rw [Automaton.isDeterministic_iff] at hdeterministic
    rw [Coinductive.areEquivalent_simulation_after_iff, Automaton.satisfies_iff]
    exact hdeterministic.initials_simulated_iff hfree htrim
  · intro hleft hright htrim htrim'
    rw [Automaton.isDeterministic_iff] at hleft hright
    tfae_have 1 → 2 := fun hfound => Coinductive.weakBisimulation_of_bisimulation hfound history'
    tfae_have 2 → 3 := fun hfound => Coinductive.language_of_weakBisimulation hfound history''
    tfae_have 3 → 1 := by
      -- Between such automata, accepting the same words is a bisimulation.
      intro hfound
      rw [Comparison.areEquivalent_after, Comparison.areEquivalent_language_iff,
        ← Automaton.language_eq_iff] at hfound
      have hforth := hleft.initials_bisimilar_of_language_eq htrim hright htrim' hfound
      have hback := hright.initials_bisimilar_of_language_eq htrim' hleft htrim hfound.symm
      rw [Coinductive.areEquivalent_bisimulation_after_iff]
      exact ⟨hforth, hback.mono fun _ _ hpq => hpq.symm⟩
    tfae_finish

/-- Deterministic as well, with the loop of `pathSample` run through in two states. -/
def unrolledSample : Automaton Char :=
  .ofParts [⟨true, false⟩, ⟨false, true⟩, ⟨false, true⟩]
    [⟨0, some 'a', 1⟩, ⟨1, some 'b', 2⟩, ⟨2, some 'b', 1⟩]

/-- A choice on the left does not matter to simulation, and the two deterministic samples are
equivalent in all three ways, also if two of their states were compared before. -/
theorem verdicts_on_samples_collapse :
    forkSample.isEpsilonFree = true ∧ forkSample.isDeterministic = false ∧ forkSample.Trim ∧
      pathSample.isDeterministic = true ∧
      (Coinductive.simulation ⟨0, forkSample⟩ ⟨1, pathSample⟩).areEquivalent.1 = true ∧
    unrolledSample.isDeterministic = true ∧ unrolledSample.Trim ∧ pathSample.Trim ∧
      (Comparison.between ⟨0, unrolledSample⟩ ⟨1, pathSample⟩ .language).areEquivalent.1 = true ∧
      ((Coinductive.bisimulation ⟨0, unrolledSample⟩ ⟨1, pathSample⟩).after
        [.states ⟨0, 1⟩ ⟨1, 0⟩]).areEquivalent.1 = true ∧
      (Coinductive.weakBisimulation ⟨0, unrolledSample⟩ ⟨1, pathSample⟩).areEquivalent.1 =
        true := by
  have hfree : forkSample.isEpsilonFree = true := by decide +kernel
  have hchoice : forkSample.isDeterministic = false := by decide +kernel
  have hfork : forkSample.Trim := by unfold Automaton.Trim; decide +kernel
  have hpath : pathSample.isDeterministic = true := by decide +kernel
  have htrim : pathSample.Trim := by unfold Automaton.Trim; decide +kernel
  have hunrolled : unrolledSample.isDeterministic = true := by decide +kernel
  have htrim' : unrolledSample.Trim := by unfold Automaton.Trim; decide +kernel
  have hcontained : forkSample.satisfies pathSample = true := by decide +kernel
  have hlanguage : (Comparison.between ⟨0, unrolledSample⟩ ⟨1, pathSample⟩
      .language).areEquivalent.1 = true := by
    decide +kernel
  have hsimulated := ((verdicts_collapse_on_deterministic ⟨0, forkSample⟩ ⟨1, pathSample⟩ [] []
    []).1 hfree hpath hfork).mpr hcontained
  have hcollapse := (verdicts_collapse_on_deterministic ⟨0, unrolledSample⟩ ⟨1, pathSample⟩
    [.states ⟨0, 1⟩ ⟨1, 0⟩] [] []).2 hunrolled hpath htrim' htrim
  exact ⟨hfree, hchoice, hfork, hpath, hsimulated, hunrolled, htrim', htrim, hlanguage,
    (hcollapse.out 2 0).mp hlanguage, (hcollapse.out 2 1).mp hlanguage⟩

end Deterministic

end FiniteState
