import FiniteState.Automaton.Build
import FiniteState.Proofs.Automaton.ShortestWord
import FiniteState.Proofs.Relation.Containment
/-!
What model checking hands over when it fails.  The violations form an automaton without useless
states for the whole difference of the two languages, and the violation that is shown is a shortest
word of that difference.
-/

namespace FiniteState

universe u

variable {L : Type u} [Label L]

namespace Automaton

variable {A specification V : Automaton L} {w : List L}

theorem counterexample?_eq_none_iff :
    A.counterexample? specification = none ↔ ∀ w ∈ A.language, w ∈ specification.language := by
  rw [← satisfies_iff, satisfies, Option.isNone_iff_eq_none]

/-- A counterexample is the automaton of the violations. -/
theorem eq_violations_of_counterexample? (h : A.counterexample? specification = some V) :
    A.violations specification = V := by
  rw [counterexample?] at h
  exact (Option.ite_none_left_eq_some.mp h).2 |> Option.some.inj

/-- The counterexample accepts the whole difference, and all of its states are useful. -/
theorem trim_and_mem_language_of_counterexample? (h : A.counterexample? specification = some V) :
    V.Trim ∧ ∀ w, w ∈ V.language ↔ w ∈ A.language ∧ w ∉ specification.language := by
  rw [← eq_violations_of_counterexample? h]
  exact ⟨trim_trim, fun _ => mem_language_violations⟩

theorem violation?_eq_none_iff :
    A.violation? specification = none ↔ A.counterexample? specification = none := by
  rw [violation?, Option.bind_eq_none_iff]
  constructor
  · intro h
    refine Option.eq_none_iff_forall_ne_some.mpr fun V hV => ?_
    have hempty := shortestWord?_eq_none_iff.mp (h V hV)
    have hcontained : A.counterexample? specification = none :=
      counterexample?_eq_none_iff.mpr fun w hw => by
        by_contra hnot
        exact hempty w (((trim_and_mem_language_of_counterexample? hV).2 w).mpr ⟨hw, hnot⟩)
    rw [hcontained] at hV
    cases hV
  · intro h V hV
    rw [h] at hV
    cases hV

/-- The violation that is found is a shortest one. -/
theorem isShortest_of_violation? (h : A.violation? specification = some w) :
    IsShortest (fun v => v ∈ A.language ∧ v ∉ specification.language) w := by
  obtain ⟨V, hV, hw⟩ := Option.bind_eq_some_iff.mp h
  have hlanguage := (trim_and_mem_language_of_counterexample? hV).2
  have hshortest := isShortest_of_shortestWord? hw
  exact ⟨(hlanguage w).mp hshortest.holds, fun v hv =>
    hshortest.length_le v ((hlanguage v).mpr hv)⟩

end Automaton

/-- An implementation satisfies a specification exactly if it accepts nothing else.  Otherwise the
counterexample accepts all violations and has useful states only, and a shortest violation is
shown. -/
theorem violations_are_the_difference (specification implementation : Automaton L) :
    (implementation.counterexample? specification = none ↔
      ∀ w, implementation.accepts w = true → specification.accepts w = true) ∧
    (∀ V, implementation.counterexample? specification = some V → V.Trim ∧
      ∀ w, V.accepts w = true ↔
        implementation.accepts w = true ∧ specification.accepts w = false) ∧
    (implementation.violation? specification = none ↔
      implementation.satisfies specification = true) ∧
    ∀ w, implementation.violation? specification = some w →
      IsShortest (fun v => implementation.accepts v = true ∧ specification.accepts v = false) w := by
  simp only [← Bool.not_eq_true, Automaton.accepts_iff_mem_language]
  refine ⟨Automaton.counterexample?_eq_none_iff, fun V hV => ?_, ?_, fun w hw => ?_⟩
  · exact Automaton.trim_and_mem_language_of_counterexample? hV
  · rw [Automaton.violation?_eq_none_iff, Automaton.satisfies, Option.isNone_iff_eq_none]
  · exact Automaton.isShortest_of_violation? hw

/-- An automaton for `a*b`. -/
def countdownSample : Automaton Char :=
  .ofParts [⟨true, false⟩, ⟨false, true⟩] [⟨0, some 'a', 0⟩, ⟨0, some 'b', 1⟩]

/-- An automaton for `a*b+ba`. -/
def faultyCountdownSample : Automaton Char :=
  .ofParts [⟨true, false⟩, ⟨false, true⟩, ⟨true, false⟩, ⟨false, false⟩, ⟨false, true⟩]
    [⟨0, some 'a', 0⟩, ⟨0, some 'b', 1⟩, ⟨2, some 'b', 3⟩, ⟨3, some 'a', 4⟩]

/-- The faulty sample violates the other one, and a shortest violation is `ba`. -/
theorem violation_of_faultyCountdownSample :
    (∃ V, faultyCountdownSample.counterexample? countdownSample = some V ∧ V.Trim ∧
      V.accepts ['b', 'a'] = true) ∧
    faultyCountdownSample.violation? countdownSample = some ['b', 'a'] ∧
      IsShortest (fun v => faultyCountdownSample.accepts v = true ∧
        countdownSample.accepts v = false) ['b', 'a'] := by
  have hfound : faultyCountdownSample.violation? countdownSample = some ['b', 'a'] := by
    decide +kernel
  obtain ⟨-, hcounterexample, -, hshortest⟩ :=
    violations_are_the_difference countdownSample faultyCountdownSample
  obtain ⟨V, hV, -⟩ := Option.bind_eq_some_iff.mp hfound
  obtain ⟨htrim, haccepts⟩ := hcounterexample V hV
  have hfirst := hshortest _ hfound
  exact ⟨⟨V, hV, htrim, (haccepts _).mpr hfirst.holds⟩, hfound, hfirst⟩

end FiniteState
