import FiniteState.Proofs.Construction.Reduction
import FiniteState.Proofs.Term.Denotation
/-!
The automata of terms are in canonical form.  Letters and the empty word are from the start, and
whatever an operator builds is brought into canonical form at once: without silent moves there are
none in the useful part either, merging keeps states useful, and classes are never bisimilar to each
other.  An automaton in canonical form is not changed by any of these steps.
-/

namespace FiniteState

universe u

variable {L : Type u} [Label L]

namespace Automaton

/-- No move is silent, every state is useful, no two states are bisimilar and no state is named. -/
structure Canonical (A : Automaton L) : Prop where
  epsilonFree : A.isEpsilonFree = true
  trim : A.Trim
  discerning : A.Discerning
  unnamed : A.names = []

theorem canonical_canonical (A : Automaton L) : A.canonical.Canonical where
  epsilonFree := isEpsilonFree_reduce (isEpsilonFree_restrict isEpsilonFree_removeEpsilon)
  trim := trim_canonical
  discerning := discerning_reduce _
  unnamed := names_ofParts

theorem canonical_one : (one : Automaton L).Canonical where
  epsilonFree := by
    rw [isEpsilonFree_iff]
    intro p q hmove
    simpa using (moves_ofParts.mp hmove).1
  trim := trim_one
  discerning := by
    intro p hp q hq _
    have hsize : (one : Automaton L).size = 1 := size_ofParts
    omega
  unnamed := names_ofParts

theorem canonical_letter (l : L) : (letter l).Canonical where
  epsilonFree := by
    rw [isEpsilonFree_iff]
    intro p q hmove
    simpa using (moves_ofParts.mp hmove).1
  trim := trim_letter
  discerning := by
    -- Of the two states, only the second one is terminal.
    have hterminal (p : Nat) : (letter l).isTerminal p = true ↔ p = 1 := by
      rw [letter, isTerminal_ofParts]
      rcases p with _ | _ | p <;> simp
    intro p hp q hq hbisimilar
    obtain ⟨related, hrelated, hpq⟩ := hbisimilar
    have hsize : (letter l).size = 2 := size_ofParts
    have heq : p = 1 ↔ q = 1 := by
      rw [← hterminal, ← hterminal, hrelated.terminal_eq p q hpq]
    omega
  unnamed := names_ofParts

end Automaton

/-- The automaton of every term is in canonical form. -/
theorem Term.canonical_automaton (t : Term L) : t.automaton.Canonical := by
  cases t with
  | one => exact Automaton.canonical_one
  | letter l => exact Automaton.canonical_letter l
  | _ => exact Automaton.canonical_canonical _

/-- What is built from a stream of tokens has no silent moves and useful states only, and removing
silent moves, trimming and merging give it back unchanged. -/
theorem parsed_automaton_is_canonical (s : TokenStream L) (A : Automaton L)
    (h : s.parse.map Term.automaton = .ok A) :
    A.isEpsilonFree = true ∧ (∀ p < A.size, p ∈ A.useful) ∧
      A.removeEpsilon = A ∧ A.trim = A ∧ A.reduce = A := by
  cases hparse : s.parse with
  | error e =>
      rw [hparse] at h
      cases h
  | ok t =>
      rw [hparse] at h
      cases h
      have hcanonical := t.canonical_automaton
      exact ⟨hcanonical.epsilonFree, hcanonical.trim,
        Automaton.removeEpsilon_eq_self hcanonical.epsilonFree hcanonical.unnamed,
        hcanonical.trim.trim_eq_self hcanonical.unnamed,
        hcanonical.discerning.reduce_eq_self hcanonical.unnamed⟩

/-- The automaton of `a2|b+c` has seven states, two of them initial, and is not changed. -/
theorem parsed_sample_is_canonical :
    ∃ A, sampleStream.parse.map Term.automaton = .ok A ∧ A.size = 7 ∧ A.isEpsilonFree = true ∧
      (∀ p < A.size, p ∈ A.useful) ∧ A.removeEpsilon = A ∧ A.trim = A ∧ A.reduce = A := by
  have hsize : (Term.union (.shuffle (.power (.letter 'a') 2) (.letter 'b'))
      (.letter 'c')).automaton.size = 7 := by
    decide +kernel
  exact ⟨_, rfl, hsize, parsed_automaton_is_canonical sampleStream _ rfl⟩

end FiniteState
