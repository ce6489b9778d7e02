import FiniteState.Construction.Regular
import FiniteState.Proofs.Automaton.Isomorphism
import FiniteState.Proofs.Construction.Minimization
/-!
When reducing a deterministic automaton is enough to make it minimal.  Without dead ends the classes
are the left quotients of the language that are not empty, which every deterministic automaton for
the language needs.  A dead end makes up a class of its own, which trimming would remove.
-/

namespace FiniteState

universe u

variable {L : Type u} [Label L]

namespace Automaton

variable {A : Automaton L} {p : Nat}

theorem size_trim_lt (hp : p < A.size) (hdead : p ∉ A.coAccessible) : A.trim.size < A.size := by
  have hsubset : A.useful.toList ⊆ A.states.erase p := by
    intro q hq
    obtain ⟨-, w, hw⟩ := mem_useful.mp hq
    have hne : q ≠ p := by
      rintro rfl
      exact hdead (mem_coAccessible.mpr ⟨w, hw⟩)
    exact (List.mem_erase_of_ne hne).mpr (mem_states.mpr (lt_size_of_mem_languageFrom hw))
  have hlength := (List.subperm_of_subset A.useful.toList_nodup hsubset).length_le
  rw [List.length_erase_of_mem (mem_states.mpr hp), states, List.length_range] at hlength
  rw [trim, size_restrict]
  omega

/-- The class of a state is a dead end exactly if the state is one. -/
theorem classOf_mem_coAccessible (hp : p < A.size) :
    A.classOf p ∈ A.reduce.coAccessible ↔ p ∈ A.coAccessible := by
  rw [mem_coAccessible, mem_coAccessible, languageFrom_reduce hp]

/-- Reducing a deterministic automaton all of whose states can be reached leaves as few states as a
deterministic automaton for the language can have, exactly if there are no dead ends. -/
theorem reduction_is_least_iff_no_dead_ends (A : Automaton L)
    (hdeterministic : A.isDeterministic = true) (haccessible : A.Accessible) :
    (∀ B : Automaton L, B.isDeterministic = true → (∀ w, B.accepts w = A.accepts w) →
      A.reduce.size ≤ B.size) ↔
    ∀ p < A.size, p ∈ A.coAccessible := by
  have hA : A.Deterministic := isDeterministic_iff.mp hdeterministic
  constructor
  · intro hleast p hp
    by_contra hdead
    have hclass : A.classOf p ∉ A.reduce.coAccessible := by
      rwa [classOf_mem_coAccessible hp]
    have hsmaller := size_trim_lt (classOf_lt_size hp) hclass
    refine Nat.not_le_of_lt hsmaller (hleast A.reduce.trim ?_ ?_)
    · exact isDeterministic_iff.mpr hA.reduce.trim
    · exact language_eq_iff.mp (language_trim.trans language_reduce)
  · intro hlive B hB hlanguage
    have htrim : A.Trim :=
      fun p hp => OrderedSet.mem_inter.mpr ⟨haccessible p hp, hlive p hp⟩
    refine (hA.minimal_reduce htrim).size_le (isDeterministic_iff.mp hB) ?_
    rw [language_eq_iff.mpr hlanguage, language_reduce]

/-- An automaton with two ways to the same end. -/
def twinsSample : Automaton Char :=
  .ofParts [⟨true, false⟩, ⟨false, false⟩, ⟨false, false⟩, ⟨false, true⟩]
    [⟨0, some 'a', 1⟩, ⟨0, some 'b', 2⟩, ⟨1, some 'c', 3⟩, ⟨2, some 'c', 3⟩, ⟨3, some 'd', 0⟩]

/-- Three states are left of the sample, and none less would do. -/
theorem reduction_of_twinsSample_is_least :
    twinsSample.isDeterministic = true ∧ twinsSample.Accessible ∧
      (∀ p < twinsSample.size, p ∈ twinsSample.coAccessible) ∧
      ∀ B : Automaton Char, B.isDeterministic = true →
        (∀ w, B.accepts w = twinsSample.accepts w) → 3 ≤ B.size := by
  have hdeterministic : twinsSample.isDeterministic = true := by decide +kernel
  have haccessible : twinsSample.Accessible := by
    unfold Accessible
    decide +kernel
  have hlive : ∀ p < twinsSample.size, p ∈ twinsSample.coAccessible := by decide +kernel
  have hsize : twinsSample.reduce.size = 3 := by decide +kernel
  have hleast :=
    (reduction_is_least_iff_no_dead_ends twinsSample hdeterministic haccessible).mpr hlive
  rw [hsize] at hleast
  exact ⟨hdeterministic, haccessible, hlive, hleast⟩

/-- An automaton that accepts the empty word only, with a letter that leads nowhere. -/
def deadEndSample : Automaton Char :=
  .ofParts [⟨true, true⟩, ⟨false, false⟩] [⟨0, some 'a', 1⟩]

/-- Reducing the sample keeps its dead end, though one state is enough for its language. -/
theorem reduction_of_deadEndSample_is_not_least :
    deadEndSample.isDeterministic = true ∧ deadEndSample.Accessible ∧
      (one : Automaton Char).isDeterministic = true ∧
      (∀ w, (one : Automaton Char).accepts w = deadEndSample.accepts w) ∧
      (one : Automaton Char).size < deadEndSample.reduce.size := by
  have haccessible : deadEndSample.Accessible := by
    unfold Accessible
    decide +kernel
  have htrim : deadEndSample.trim = one := by
    refine SameIndices.eq ⟨?_, ?_, ?_, ?_⟩ ?_ <;> decide +kernel
  have hlanguage : (one : Automaton Char).language = deadEndSample.language := by
    rw [← htrim, language_trim]
  exact ⟨by decide +kernel, haccessible, by decide +kernel, language_eq_iff.mp hlanguage,
    by decide +kernel⟩

end Automaton

end FiniteState
