import FiniteState.Construction.Regular
import FiniteState.Proofs.Construction.CanonicalForm
import FiniteState.Proofs.Handle.Comparison
import FiniteState.Proofs.Relation.Containment
import Mathlib.Tactic.TFAE
/-!
Four ways to compare languages agree: running both automata on all words, looking for a difference
in pairs of sets of states, checking each automaton against the other, and comparing the minimized
automata index by index.
-/

namespace FiniteState

universe u

variable {L : Type u} [Label L]

namespace Automaton

variable {A B : Automaton L}

/-- Two automata accept the same words exactly if each satisfies the other as a specification. -/
theorem satisfies_and_satisfies_iff :
    A.satisfies B = true ∧ B.satisfies A = true ↔ A.language = B.language := by
  rw [satisfies_iff, satisfies_iff]
  exact Set.Subset.antisymm_iff.symm

/-- Minimized automata agree at every index exactly if they accept the same words. -/
theorem sameIndices_minimize_iff : A.minimize.SameIndices B.minimize ↔ A.language = B.language := by
  constructor
  · intro h
    have heq := h.eq (names_minimize.trans names_minimize.symm)
    rw [← A.language_minimize, heq, language_minimize]
  · intro h
    rw [minimize_eq_of_language_eq h]
    exact ⟨rfl, rfl, rfl, rfl⟩

end Automaton

/-- The minimized automata decide whether two automata accept the same words, and so do the search
for a difference and the two checks of one automaton against the other.  The minimized automaton is
deterministic, and no deterministic automaton for the same words is smaller. -/
theorem language_deciders_agree (left right : Tagged L) :
    [∀ w, left.automaton.accepts w = right.automaton.accepts w,
      (Comparison.between left right .language).areEquivalent.1 = true,
      right.automaton.satisfies left.automaton = true ∧
        left.automaton.satisfies right.automaton = true,
      left.automaton.determinize.trim.reduce.SameIndices
        right.automaton.determinize.trim.reduce].TFAE ∧
    left.automaton.determinize.trim.reduce.isDeterministic = true ∧
    (∀ w, left.automaton.determinize.trim.reduce.accepts w = left.automaton.accepts w) ∧
    ∀ D : Automaton L, D.isDeterministic = true →
      (∀ w, D.accepts w = left.automaton.accepts w) →
        left.automaton.determinize.trim.reduce.size ≤ D.size := by
  have hminimal := left.automaton.minimal_minimize
  refine ⟨?_, Automaton.isDeterministic_iff.mpr hminimal.deterministic,
    Automaton.language_eq_iff.mp left.automaton.language_minimize, ?_⟩
  · tfae_have 1 ↔ 2 := Comparison.areEquivalent_language_iff.symm
    tfae_have 1 ↔ 3 := by
      rw [← Automaton.language_eq_iff, and_comm]
      exact Automaton.satisfies_and_satisfies_iff.symm
    tfae_have 1 ↔ 4 := by
      rw [← Automaton.language_eq_iff]
      exact Automaton.sameIndices_minimize_iff.symm
    tfae_finish
  · intro D hD haccepts
    have hlanguage := Automaton.language_eq_iff.mpr haccepts
    rw [← left.automaton.language_minimize] at hlanguage
    exact hminimal.size_le (Automaton.isDeterministic_iff.mp hD) hlanguage

/-- Two copies of a letter are as good as one, which has as few states as possible. -/
theorem language_deciders_agree_on_copies :
    (Comparison.between ⟨0, (Automaton.letter 'a').union (.letter 'a')⟩ ⟨1, .letter 'a'⟩
        .language).areEquivalent.1 = true ∧
      (Automaton.letter 'a').isDeterministic = true ∧
      ((Automaton.letter 'a').union (.letter 'a')).determinize.trim.reduce.size ≤
        (Automaton.letter 'a').size := by
  have hfound : (Comparison.between ⟨0, (Automaton.letter 'a').union (.letter 'a')⟩
      ⟨1, .letter 'a'⟩ .language).areEquivalent.1 = true := by
    decide +kernel
  have hdeterministic : (Automaton.letter 'a').isDeterministic = true := by
    decide +kernel
  obtain ⟨hagree, -, -, hleast⟩ :=
    language_deciders_agree ⟨0, (Automaton.letter 'a').union (.letter 'a')⟩ ⟨1, .letter 'a'⟩
  have haccepts := (hagree.out 1 0).mp hfound
  exact ⟨hfound, hdeterministic, hleast _ hdeterministic fun w => (haccepts w).symm⟩

end FiniteState
