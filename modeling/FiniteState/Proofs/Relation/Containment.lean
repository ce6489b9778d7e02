import FiniteState.Proofs.Construction.Complement
import FiniteState.Proofs.Construction.Product
import FiniteState.Proofs.Construction.Trimmed
import FiniteState.Relation.Containment
/-!
Model checking decides containment.  The violations are exactly the accepted words that the
specification does not accept, and as they are trimmed, there are no states if there are no
violations.
-/

namespace FiniteState

universe u

variable {L : Type u} [Label L]

namespace Automaton

variable {A specification : Automaton L} {w : List L}

theorem mem_language_violations :
    w ∈ (A.violations specification).language ↔ w ∈ A.language ∧ w ∉ specification.language := by
  rw [violations, language_trim, mem_language_intersection, mem_language_complementOver]
  constructor
  · exact fun h => ⟨h.2, h.1.2⟩
  · exact fun h => ⟨⟨fun l hl => mem_alphabet_of_mem_language h.1 hl, h.2⟩, h.1⟩

/-- A specification is satisfied exactly if it accepts every accepted word. -/
theorem satisfies_iff :
    A.satisfies specification = true ↔ ∀ w ∈ A.language, w ∈ specification.language := by
  have hempty : A.satisfies specification = true ↔ (A.violations specification).isEmpty = true := by
    rw [satisfies, counterexample?]
    split
    · rename_i h
      simp [h]
    · rename_i h
      simp [h]
  have htrim : (A.violations specification).Trim := trim_trim
  rw [hempty, htrim.isEmpty_iff]
  apply forall_congr'
  intro w
  rw [mem_language_violations, not_and_not_right]

end Automaton

end FiniteState
