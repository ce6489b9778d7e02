import FiniteState.Automaton.Build
import FiniteState.Proofs.Construction.Reduction
import FiniteState.Proofs.Handle.Coinductive
/-!
Refinement and the search for a coinductive proof agree.  The one splits classes until they are
stable, the other one follows the moves of a single pair; both find the bisimilar states.  So the
reduced automaton stands for an automaton up to bisimilarity, and what the search finds about two
automata can be read off from their reduced automata.
-/

namespace FiniteState

universe u

variable {L : Type u} [Label L]

variable {left right : Tagged L} {s t : Handle} {p q : Nat}

theorem bisimilarHandles_handle_iff :
    BisimilarHandles left right (left.handle p) (right.handle q) ↔
      p < left.automaton.size ∧ q < right.automaton.size ∧
        Bisimilar left.automaton right.automaton p q :=
  and_congr Tagged.contains_handle (and_congr_left' Tagged.contains_handle)

namespace Coinductive

theorem relates_bisimulation_iff :
    (bisimulation left right).Relates (Related (bisimulation left right).matching.Needs) s t ↔
      BisimilarHandles left right s t :=
  and_congr_right' (and_congr_right' Matching.related_iff_bisimilar)

/-- States are found to be equivalent exactly if they are bisimilar. -/
theorem equivalent_bisimulation_iff :
    ((bisimulation left right).equivalent s t).1 = true ↔ BisimilarHandles left right s t := by
  have hsound := sound_bisimulation left right
  rw [← relates_bisimulation_iff]
  exact hsound.answer_iff (hsound.decides_ask s t) (monotone_relates s t)

/-- Automata are found to be equivalent exactly if their initial states are bisimilar. -/
theorem areEquivalent_bisimulation_after_iff (history : List Question) :
    ((bisimulation left right).after history).areEquivalent.1 = true ↔
      BisimilarInitials left.automaton right.automaton := by
  have htwo : (bisimulation left right).matching.twoSided = true := rfl
  rw [(sound_bisimulation left right).areEquivalent_after_iff
    (fun _ _ => Matching.related_iff_bisimilar) history, imp_iff_right htwo]
  exact ⟨fun h => ⟨h.1, h.2⟩, fun h => ⟨h.forth, h.back⟩⟩

theorem areEquivalent_bisimulation_iff :
    (bisimulation left right).areEquivalent.1 = true ↔
      BisimilarInitials left.automaton right.automaton :=
  areEquivalent_bisimulation_after_iff []

end Coinductive

/-- Every state is bisimilar to its representative, initial states are represented by initial ones,
and there are no other states than representatives and no two that are bisimilar. -/
structure IsQuotient (A Q : Automaton L) (representative : Nat → Nat) : Prop where
  bisimilar : ∀ p < A.size, representative p < Q.size ∧ Bisimilar A Q p (representative p)
  initials : BisimilarInitials A Q
  represents : ∀ x < Q.size, ∃ p < A.size, representative p = x
  discerning : Q.Discerning

/-- The reduced automaton is the quotient by bisimilarity.  If all states are accessible, it is
known up to isomorphism from what the initial states are bisimilar to. -/
theorem reduction_is_canonical_quotient :
    (∀ A : Automaton L, IsQuotient A A.reduce A.classOf) ∧
      ∀ left right : Tagged L, left.automaton.Accessible → right.automaton.Accessible →
        ((Coinductive.bisimulation left right).areEquivalent.1 = true ↔
          Isomorphic left.automaton.reduce right.automaton.reduce) := by
  constructor
  · intro A
    exact ⟨fun p hp => ⟨A.classOf_lt_size hp, A.bisimilar_classOf hp⟩, A.bisimilarInitials_reduce,
      fun x hx => Automaton.lt_size_reduce.mp hx, A.discerning_reduce⟩
  · intro left right hleft hright
    rw [Coinductive.areEquivalent_bisimulation_iff, Automaton.isomorphic_reduce_iff hleft hright]

/-- A choice between two states that both go on with `b`. -/
def forkSample : Automaton Char :=
  .ofParts [⟨true, false⟩, ⟨false, true⟩, ⟨false, true⟩]
    [⟨0, some 'a', 1⟩, ⟨0, some 'a', 2⟩, ⟨1, some 'b', 2⟩, ⟨2, some 'b', 1⟩]

/-- The same without a choice. -/
def pathSample : Automaton Char :=
  .ofParts [⟨false, true⟩, ⟨true, false⟩] [⟨1, some 'a', 0⟩, ⟨0, some 'b', 0⟩]

/-- The reduced automata of the samples differ in the numbers of their states only. -/
theorem reduction_of_forkSample_is_that_of_pathSample :
    forkSample.Accessible ∧ pathSample.Accessible ∧
      (Coinductive.bisimulation ⟨0, forkSample⟩ ⟨1, pathSample⟩).areEquivalent.1 = true ∧
        Isomorphic forkSample.reduce pathSample.reduce := by
  have hfork : forkSample.Accessible := by
    unfold Automaton.Accessible
    decide +kernel
  have hpath : pathSample.Accessible := by
    unfold Automaton.Accessible
    decide +kernel
  have hequivalent :
      (Coinductive.bisimulation ⟨0, forkSample⟩ ⟨1, pathSample⟩).areEquivalent.1 = true := by
    decide +kernel
  exact ⟨hfork, hpath, hequivalent,
    (reduction_is_canonical_quotient.2 ⟨0, forkSample⟩ ⟨1, pathSample⟩ hfork hpath).mp hequivalent⟩

/-- Refinement puts two states into one class exactly if the search finds them equivalent. -/
theorem partition_agrees_with_proof_search (T : Tagged L) :
    T.automaton.stablePartition.Divides T.automaton.states ∧
      ∀ p < T.automaton.size, ∀ q < T.automaton.size,
        (T.automaton.stablePartition.classOf? p = T.automaton.stablePartition.classOf? q ↔
          ((Coinductive.bisimulation T T).equivalent (T.handle p) (T.handle q)).1 = true) := by
  refine ⟨T.automaton.divides_stablePartition, fun p hp q hq => ?_⟩
  rw [Automaton.classOf?_stablePartition_eq_iff hp hq, Automaton.classOf_eq_iff_bisimilar hp hq,
    Coinductive.equivalent_bisimulation_iff, bisimilarHandles_handle_iff]
  exact ⟨fun h => ⟨hp, hq, h⟩, fun h => h.2.2⟩

/-- In the sample with a choice, the states behind it share a class and the first one does not. -/
theorem partition_of_forkSample_agrees :
    forkSample.stablePartition.classOf? 1 = forkSample.stablePartition.classOf? 2 ∧
      ((Coinductive.bisimulation ⟨0, forkSample⟩ ⟨0, forkSample⟩).equivalent ⟨0, 1⟩ ⟨0, 2⟩).1 =
        true ∧
      forkSample.stablePartition.classOf? 0 ≠ forkSample.stablePartition.classOf? 1 := by
  have hlt {p : Nat} (hp : p < 3) : p < forkSample.size := by
    have hsize : forkSample.size = 3 := by decide +kernel
    rwa [hsize]
  have hagree := (partition_agrees_with_proof_search ⟨0, forkSample⟩).2
  have hfound : ((Coinductive.bisimulation ⟨0, forkSample⟩ ⟨0, forkSample⟩).equivalent ⟨0, 1⟩
      ⟨0, 2⟩).1 = true := by
    decide +kernel
  refine ⟨(hagree 1 (hlt (by omega)) 2 (hlt (by omega))).mpr hfound, hfound, fun h => ?_⟩
  have hequivalent := (hagree 0 (hlt (by omega)) 1 (hlt (by omega))).mp h
  revert hequivalent
  decide +kernel

end FiniteState
