import FiniteState.Construction.Determinization
import FiniteState.Proofs.Automaton.Spectrum
import FiniteState.Proofs.Construction.Determinization
import FiniteState.Proofs.Construction.Quotient
import FiniteState.Proofs.Construction.Trimmed
import Mathlib.Order.Defs.LinearOrder
/-!
Minimization.  Determinizing, trimming and reducing leads to a minimal automaton: in a trim
deterministic automaton the states that accept the same words are bisimilar, so reducing merges
them.  Trimming leaves out the states that accept nothing, reducing leaves the first of several
states that accept the same, and neither changes the order of the others.
-/

namespace FiniteState

universe u

variable {L : Type u} [Label L]

namespace Automaton

variable {A : Automaton L} {p q : Nat}

/-- A deterministic automaton for the same language with as few states as possible. -/
def minimize (A : Automaton L) : Automaton L :=
  A.determinize.trim.reduce

section Trim

theorem Deterministic.trim (h : A.Deterministic) : A.trim.Deterministic := by
  have hnodup := A.useful.toList_nodup
  constructor
  · intro x y hx hy
    obtain ⟨p, hxp, hp⟩ := isInitial_restrict.mp hx
    obtain ⟨q, hyq, hq⟩ := isInitial_restrict.mp hy
    rw [h.initial_unique p q hp hq] at hxp
    exact place_unique hnodup hxp hyq
  · intro x y hmove
    obtain ⟨p, q, -, -, hmove⟩ := moves_restrict.mp hmove
    exact h.not_silent p q hmove
  · intro x l y y' hmove hmove'
    obtain ⟨p, q, hx, hy, hmove⟩ := moves_restrict.mp hmove
    obtain ⟨p', q', hx', hy', hmove'⟩ := moves_restrict.mp hmove'
    cases hx.symm.trans hx'
    rw [h.functional p l q q' hmove hmove'] at hy
    exact place_unique hnodup hy hy'

/-- The useful states keep what they accept, and their order. -/
theorem residuals_trim : A.trim.residuals = A.useful.toList.map A.languageFrom :=
  residuals_eq_map size_restrict fun _ _ hx => languageFrom_trim hx

theorem mem_coAccessible_iff_ne_zero : p ∈ A.coAccessible ↔ A.languageFrom p ≠ 0 :=
  mem_coAccessible.trans Set.nonempty_iff_ne_empty

open scoped Classical in
/-- If all states are accessible, trimming leaves out the states that accept nothing. -/
theorem residuals_trim_of_accessible (h : ∀ p < A.size, p ∈ A.accessible) :
    A.trim.residuals = A.residuals.filter fun R => R ≠ 0 := by
  have huseful : A.useful = (OrderedSet.range A.size).filter fun p => A.languageFrom p ≠ 0 := by
    apply OrderedSet.eq_of_mem_iff
    intro p
    rw [useful, OrderedSet.mem_inter, OrderedSet.mem_filter, OrderedSet.mem_range,
      decide_eq_true_eq, mem_coAccessible_iff_ne_zero]
    refine and_congr_left fun hp => ⟨fun _ => ?_, h p⟩
    obtain ⟨w, hw⟩ := mem_coAccessible.mp (mem_coAccessible_iff_ne_zero.mpr hp)
    exact lt_size_of_mem_languageFrom hw
  rw [residuals_trim, huseful, residuals, List.filter_map]
  rfl

end Trim

section Reduce

theorem Deterministic.reduce (h : A.Deterministic) : A.reduce.Deterministic := by
  constructor
  · intro x y hx hy
    obtain ⟨p, hp, rfl⟩ := isInitial_reduce.mp hx
    obtain ⟨q, hq, rfl⟩ := isInitial_reduce.mp hy
    rw [h.initial_unique p q hp hq]
  · intro x y hmove
    obtain ⟨p, q, hmove, -, -⟩ := moves_reduce.mp hmove
    exact h.not_silent p q hmove
  · intro x l y y' hmove hmove'
    obtain ⟨p, q, hpq, hx, rfl⟩ := moves_reduce.mp hmove
    obtain ⟨p', q', hpq', hx', rfl⟩ := moves_reduce.mp hmove'
    obtain ⟨r, hanswer, hclass⟩ :=
      exists_moves_of_refine_eq hpq.start_lt hpq'.start_lt (hx.trans hx'.symm) hpq
    rw [h.functional p' l q' r hpq' hanswer]
    exact hclass

/-- The classes occur for the first time in the order of counting. -/
theorem eraseDups_map_classOf : (A.states.map A.classOf).eraseDups = A.reduce.states := by
  have hrange : (A.states.map A.classOf).eraseDups =
      List.range (A.distinct (A.signature A.refine)) := by
    have hclasses : A.states.map A.classOf =
        numberByFirst (A.states.map (A.signature A.refine)) := by
      rw [← map_getD_classify]
      exact List.map_congr_left fun p _ => classOf_eq
    rw [hclasses, eraseDups_numberByFirst, distinct]
  have hsize : A.distinct (A.signature A.refine) = A.reduce.size := by
    apply eq_of_forall_lt_iff
    intro c
    rw [lt_size_reduce, ← List.mem_range, ← hrange, List.mem_eraseDups, List.mem_map]
    simp only [mem_states]
  rw [hrange, hsize, states]

open scoped Classical in
/-- Reducing a trim deterministic automaton leaves the first of several states that accept the
same. -/
theorem residuals_reduce (h : A.Deterministic) (htrim : A.Trim) :
    A.reduce.residuals = A.residuals.eraseDups := by
  have hmap : (A.states.map A.classOf).map A.reduce.languageFrom = A.residuals := by
    rw [List.map_map]
    exact List.map_congr_left fun p hp => languageFrom_reduce (mem_states.mp hp)
  rw [← hmap, residuals, ← eraseDups_map_classOf]
  refine (eraseDups_map_of_injOn fun x hx y hy heq => ?_).symm
  obtain ⟨p, hp, rfl⟩ := List.mem_map.mp hx
  obtain ⟨q, hq, rfl⟩ := List.mem_map.mp hy
  rw [mem_states] at hp hq
  rw [languageFrom_reduce hp, languageFrom_reduce hq] at heq
  exact refine_eq_of_isBisimulation (h.isBisimulation_languageFrom_eq htrim h htrim) hp hq heq

/-- Reducing a trim deterministic automaton makes it minimal. -/
theorem Deterministic.minimal_reduce (h : A.Deterministic) (htrim : A.Trim) :
    A.reduce.Minimal := by
  classical
  refine ⟨h.reduce, htrim.reduce, ?_⟩
  rw [residuals_reduce h htrim]
  exact nodup_eraseDups _

end Reduce

/-- Minimizing keeps the language. -/
theorem language_minimize (A : Automaton L) : A.minimize.language = A.language := by
  rw [minimize, language_reduce, language_trim, language_determinize]

theorem minimal_minimize (A : Automaton L) : A.minimize.Minimal :=
  A.deterministic_determinize.trim.minimal_reduce trim_trim

end Automaton

end FiniteState
