import FiniteState.Proofs.Automaton.WeakBisimulation
import FiniteState.Proofs.Handle.Coinductive
/-!
Questions about weak bisimulation that are asked one after the other.  The search runs on the
automata without their silent moves, which have the same states, so the handles keep their meaning
and the answers are about the automata that were given.
-/

namespace FiniteState

universe u

variable {L : Type u} [Label L]

theorem Coinductive.sound_weakBisimulation (left right : Tagged L) :
    (weakBisimulation left right).Sound :=
  ⟨Memo.sound_empty, Automaton.size_removeEpsilon, Automaton.size_removeEpsilon⟩

def WeaklyBisimilarHandles (left right : Tagged L) (s t : Handle) : Prop :=
  left.contains s = true ∧ right.contains t = true ∧
    WeaklyBisimilar left.automaton right.automaton s.index t.index

theorem Coinductive.relates_weakBisimulation_iff {left right : Tagged L} {s t : Handle} :
    (weakBisimulation left right).Relates (Related (weakBisimulation left right).matching.Needs) s t
      ↔ WeaklyBisimilarHandles left right s t := by
  refine and_congr_right' (and_congr_right' ?_)
  rw [weaklyBisimilar_iff]
  exact Matching.related_iff_bisimilar

/-- Sets of handles are related if each handle of either set names a state that is weakly bisimilar
to one of the other set. -/
theorem Coinductive.relatesSets_weakBisimulation_iff {left right : Tagged L} {S T : HandleSet} :
    (weakBisimulation left right).RelatesSets
        (Related (weakBisimulation left right).matching.Needs) S T ↔
      (∀ s ∈ S, ∃ t ∈ T, WeaklyBisimilarHandles left right s t) ∧
        ∀ t ∈ T, ∃ s ∈ S, WeaklyBisimilarHandles left right s t := by
  have htwo : (weakBisimulation left right).matching.twoSided = true := rfl
  simp only [RelatesSets, relates_weakBisimulation_iff, htwo, true_implies]

/-- Automata are found to be equivalent exactly if their initial states are weakly bisimilar. -/
theorem Coinductive.areEquivalent_weakBisimulation_after_iff {left right : Tagged L}
    (history : List Question) :
    ((weakBisimulation left right).after history).areEquivalent.1 = true ↔
      InitialsAnswered left.automaton right.automaton
        (WeaklyBisimilar left.automaton right.automaton) ∧
      InitialsAnswered right.automaton left.automaton
        fun q p => WeaklyBisimilar left.automaton right.automaton p q := by
  have htwo : (weakBisimulation left right).matching.twoSided = true := rfl
  rw [(sound_weakBisimulation left right).areEquivalent_after_iff
    (fun _ _ => Matching.related_iff_bisimilar.trans weaklyBisimilar_iff.symm) history,
    imp_iff_right htwo]
  exact Iff.rfl

/-- The initial states are found to be related to those of the automaton without silent moves. -/
theorem Coinductive.areEquivalent_removeEpsilon (T : Tagged L) (tag : Nat)
    (history : List Question) :
    ((weakBisimulation T ⟨tag, T.automaton.removeEpsilon⟩).after history).areEquivalent.1 = true := by
  have hinitial := T.automaton.isInitial_removeEpsilon
  have hself := weaklyBisimilar_removeEpsilon T.automaton
  apply (areEquivalent_weakBisimulation_after_iff history).mpr
  constructor
  · intro p hp
    exact ⟨p, (hinitial p).trans hp, hself p⟩
  · intro p hp
    exact ⟨p, (hinitial p).symm.trans hp, hself p⟩

/-- Weak bisimulation is decided exactly, whatever was asked before.  In particular the initial
states are found to be related to those of the automaton without silent moves. -/
theorem weak_bisimulation_decided_after_any_history (left right : Tagged L)
    (history : List Question) :
    (∀ s t, (((Coinductive.weakBisimulation left right).after history).equivalent s t).1 = true ↔
      WeaklyBisimilarHandles left right s t) ∧
    (∀ S T : HandleSet,
      (((Coinductive.weakBisimulation left right).after history).equivalentSets S T).1 = true ↔
        (∀ s ∈ S, ∃ t ∈ T, WeaklyBisimilarHandles left right s t) ∧
          ∀ t ∈ T, ∃ s ∈ S, WeaklyBisimilarHandles left right s t) ∧
    ∀ tag : Nat, ((Coinductive.weakBisimulation left
      ⟨tag, left.automaton.removeEpsilon⟩).after history).areEquivalent.1 = true := by
  obtain ⟨hstates, hsets⟩ := (Coinductive.sound_weakBisimulation left right).decided_after history
  refine ⟨fun s t => ?_, fun S T => ?_, fun tag => ?_⟩
  · exact (hstates s t).trans Coinductive.relates_weakBisimulation_iff
  · exact (hsets S T).trans Coinductive.relatesSets_weakBisimulation_iff
  · exact Coinductive.areEquivalent_removeEpsilon left tag history

end FiniteState
