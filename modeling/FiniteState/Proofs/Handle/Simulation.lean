import FiniteState.Proofs.Handle.Coinductive
/-!
Questions about simulation that are asked one after the other.  The search is the one for
bisimulation, with moves answered in one direction only, so its answers do not depend on the
questions before either.
-/

namespace FiniteState

universe u

variable {L : Type u} [Label L]

theorem Coinductive.sound_simulation (left right : Tagged L) : (simulation left right).Sound :=
  ⟨Memo.sound_empty, rfl, rfl⟩

/-- The handles name states of the two automata, the second of which simulates the first one. -/
def SimulatedHandles (left right : Tagged L) (s t : Handle) : Prop :=
  left.contains s = true ∧ right.contains t = true ∧
    SimulatedBy left.automaton right.automaton s.index t.index

theorem Coinductive.relates_simulation_iff {left right : Tagged L} {s t : Handle} :
    (simulation left right).Relates (Related (simulation left right).matching.Needs) s t ↔
      SimulatedHandles left right s t :=
  and_congr_right' (and_congr_right' Matching.related_iff_simulatedBy)

/-- An automaton is found to be simulated exactly if its initial states are. -/
theorem Coinductive.areEquivalent_simulation_after_iff {left right : Tagged L}
    (history : List Question) :
    ((simulation left right).after history).areEquivalent.1 = true ↔
      InitialsAnswered left.automaton right.automaton
        (SimulatedBy left.automaton right.automaton) := by
  -- Nothing is asked in the other direction.
  have hone : ¬ (simulation left right).matching.twoSided = true := Bool.false_ne_true
  rw [(sound_simulation left right).areEquivalent_after_iff
    (fun _ _ => Matching.related_iff_simulatedBy) history, and_iff_left fun htwo => absurd htwo hone]
  exact Iff.rfl

/-- Simulation is decided exactly, whatever was asked before. -/
theorem simulation_decided_after_any_history (left right : Tagged L) (history : List Question) :
    (∀ s t, (((Coinductive.simulation left right).after history).equivalent s t).1 = true ↔
      SimulatedHandles left right s t) ∧
    ∀ S T : HandleSet,
      (((Coinductive.simulation left right).after history).equivalentSets S T).1 = true ↔
        ∀ s ∈ S, ∃ t ∈ T, SimulatedHandles left right s t := by
  obtain ⟨hstates, hsets⟩ := (Coinductive.sound_simulation left right).decided_after history
  constructor
  · exact fun s t => (hstates s t).trans Coinductive.relates_simulation_iff
  · intro S T
    -- Nothing is asked in the other direction.
    have hone : ¬ (Coinductive.simulation left right).matching.twoSided = true := Bool.false_ne_true
    rw [hsets, Coinductive.RelatesSets, and_iff_left fun htwo => absurd htwo hone]
    simp only [Coinductive.relates_simulation_iff]

end FiniteState
