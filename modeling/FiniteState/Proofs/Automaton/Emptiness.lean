import FiniteState.Proofs.Automaton.ShortestWord
import FiniteState.Proofs.Construction.Trimmed
/-!
When nothing is accepted.  A word is accepted exactly if a terminal state is accessible, exactly if
a state is useful, and exactly if trimming leaves a state; then there is a shortest accepted word,
and the search finds one.
-/

namespace FiniteState

universe u

variable {L : Type u} [Label L]

namespace Automaton

variable {A : Automaton L}

theorem isEmptyLanguage_iff : A.isEmptyLanguage = true ↔ ∀ w, w ∉ A.language := by
  simp only [isEmptyLanguage, List.all_eq_true, OrderedSet.mem_toList, mem_accessible,
    Bool.not_eq_true']
  constructor
  · rintro h w ⟨i, hi, t, hrun, ht⟩
    exact Bool.eq_false_iff.mp (h t ⟨i, w, hi, hrun⟩) ht
  · rintro h t ⟨i, w, hi, hrun⟩
    exact Bool.eq_false_iff.mpr fun ht => h w ⟨i, hi, t, hrun, ht⟩

theorem isEmpty_useful_iff : A.useful.isEmpty = true ↔ A.trim.size = 0 := by
  rw [trim, size_restrict, OrderedSet.isEmpty, List.isEmpty_iff, List.length_eq_zero_iff]

theorem size_trim_eq_zero_iff : A.trim.size = 0 ↔ ∀ w, w ∉ A.language := by
  rw [← language_trim, ← trim_trim.isEmpty_iff, isEmpty, beq_iff_eq]

/-- A shortest accepted word is found, unless nothing is accepted.  This is the case exactly if no
accessible state is terminal, exactly if no state is useful, and exactly if trimming leaves no
state. -/
theorem shortest_word_is_found_unless_nothing_is_accepted (A : Automaton L) :
    (∀ w, A.shortestWord? = some w → IsShortest (fun v => A.accepts v = true) w) ∧
    (A.shortestWord? = none ↔ ∀ w, A.accepts w = false) ∧
    (A.isEmptyLanguage = true ↔ ∀ w, A.accepts w = false) ∧
    (A.useful.isEmpty = true ↔ ∀ w, A.accepts w = false) ∧
    (A.trim.size = 0 ↔ ∀ w, A.accepts w = false) := by
  simp only [← Bool.not_eq_true, accepts_iff_mem_language]
  exact ⟨fun w hw => isShortest_of_shortestWord? hw, shortestWord?_eq_none_iff,
    isEmptyLanguage_iff, isEmpty_useful_iff.trans size_trim_eq_zero_iff, size_trim_eq_zero_iff⟩

end Automaton

/-- Silent moves lead around a cycle, and to a state that was met before by reading a letter. -/
def detourSample : Automaton Char :=
  .ofParts [⟨true, false⟩, ⟨false, false⟩, ⟨false, false⟩, ⟨false, true⟩]
    [⟨0, none, 1⟩, ⟨1, none, 0⟩, ⟨0, some 'a', 2⟩, ⟨1, none, 2⟩, ⟨2, some 'b', 3⟩]

/-- The letter that was read first is not needed. -/
theorem shortest_word_of_detourSample :
    detourSample.shortestWord? = some ['b'] ∧
      IsShortest (fun v => detourSample.accepts v = true) ['b'] ∧
      detourSample.isEmptyLanguage = false ∧ detourSample.trim.size ≠ 0 := by
  have hfound : detourSample.shortestWord? = some ['b'] := by decide +kernel
  obtain ⟨hshortest, -, hempty, -, htrim⟩ :=
    Automaton.shortest_word_is_found_unless_nothing_is_accepted detourSample
  have hword := hshortest _ hfound
  have haccepts : ¬ ∀ w, detourSample.accepts w = false := fun h =>
    Bool.false_ne_true ((h ['b']).symm.trans hword.holds)
  exact ⟨hfound, hword, Bool.eq_false_iff.mpr (mt hempty.mp haccepts), mt htrim.mp haccepts⟩

end FiniteState
