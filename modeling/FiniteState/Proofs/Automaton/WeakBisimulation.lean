import FiniteState.Proofs.Automaton.Bisimulation
import FiniteState.Proofs.Construction.SilentFree
/-!
Weak bisimulation between the states of two automata: related states agree on whether a terminal
state can be reached silently, and reading a label after silent moves is answered by reading it
after silent moves.  A relation is a weak bisimulation exactly if it is a strong one between the
automata without their silent moves.
-/

namespace FiniteState

universe u

variable {L : Type u} [Label L]

namespace Automaton

variable {A : Automaton L} {p q : Nat} {l : L}

/-- Silent moves from `p` lead to a terminal state. -/
def EndsSilently (A : Automaton L) (p : Nat) : Prop :=
  ∃ r, Run A.Moves p [] r ∧ A.isTerminal r = true

/-- Silent moves and then one move on `l` lead from `p` to `q`. -/
def Reads (A : Automaton L) (p : Nat) (l : L) (q : Nat) : Prop :=
  ∃ r, Run A.Moves p [] r ∧ A.Moves r (some l) q

theorem moves_some_removeEpsilon_iff : A.removeEpsilon.Moves p (some l) q ↔ A.Reads p l q :=
  moves_removeEpsilon.trans (and_iff_right rfl)

theorem not_moves_none_removeEpsilon : ¬ A.removeEpsilon.Moves p none q :=
  isEpsilonFree_iff.mp isEpsilonFree_removeEpsilon p q

end Automaton

/-- Related states answer what the other one reads after silent moves, and they agree on whether
they reach a terminal state silently. -/
structure IsWeakBisimulation (A B : Automaton L) (related : Nat → Nat → Prop) : Prop where
  ends_iff : ∀ p q, related p q → (A.EndsSilently p ↔ B.EndsSilently q)
  forth : ∀ p q l p', related p q → A.Reads p l p' → ∃ q', B.Reads q l q' ∧ related p' q'
  back : ∀ p q l q', related p q → B.Reads q l q' → ∃ p', A.Reads p l p' ∧ related p' q'

def WeaklyBisimilar (A B : Automaton L) (p q : Nat) : Prop :=
  ∃ related, IsWeakBisimulation A B related ∧ related p q

variable {A B : Automaton L} {p q : Nat}

/-- Weak bisimulations are the strong ones between the automata without silent moves. -/
theorem isWeakBisimulation_iff {related : Nat → Nat → Prop} :
    IsWeakBisimulation A B related ↔ IsBisimulation A.removeEpsilon B.removeEpsilon related := by
  constructor
  · intro h
    refine ⟨fun p q hpq => ?_, fun p q l p' hpq hmove => ?_, fun p q l q' hpq hmove => ?_⟩
    · rw [Bool.eq_iff_iff, Automaton.isTerminal_removeEpsilon, Automaton.isTerminal_removeEpsilon]
      exact h.ends_iff p q hpq
    · cases l with
      | none => exact absurd hmove Automaton.not_moves_none_removeEpsilon
      | some l =>
          rw [Automaton.moves_some_removeEpsilon_iff] at hmove
          simp only [Automaton.moves_some_removeEpsilon_iff]
          exact h.forth p q l p' hpq hmove
    · cases l with
      | none => exact absurd hmove Automaton.not_moves_none_removeEpsilon
      | some l =>
          rw [Automaton.moves_some_removeEpsilon_iff] at hmove
          simp only [Automaton.moves_some_removeEpsilon_iff]
          exact h.back p q l q' hpq hmove
  · intro h
    refine ⟨fun p q hpq => ?_, fun p q l p' hpq hreads => ?_, fun p q l q' hpq hreads => ?_⟩
    · rw [Automaton.EndsSilently, Automaton.EndsSilently, ← Automaton.isTerminal_removeEpsilon,
        ← Automaton.isTerminal_removeEpsilon, h.terminal_eq p q hpq]
    · simp only [← Automaton.moves_some_removeEpsilon_iff] at hreads ⊢
      exact h.forth p q (some l) p' hpq hreads
    · simp only [← Automaton.moves_some_removeEpsilon_iff] at hreads ⊢
      exact h.back p q (some l) q' hpq hreads

theorem weaklyBisimilar_iff :
    WeaklyBisimilar A B p q ↔ Bisimilar A.removeEpsilon B.removeEpsilon p q := by
  simp only [WeaklyBisimilar, Bisimilar, isWeakBisimulation_iff]

/-- Removing the silent moves leaves every state weakly bisimilar to what it was. -/
theorem weaklyBisimilar_removeEpsilon (A : Automaton L) (p : Nat) :
    WeaklyBisimilar A A.removeEpsilon p p := by
  rw [weaklyBisimilar_iff, Automaton.removeEpsilon_removeEpsilon]
  exact Bisimilar.refl _ p

end FiniteState
