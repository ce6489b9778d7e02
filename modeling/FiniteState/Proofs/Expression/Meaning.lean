import FiniteState.Expression.Basic
import FiniteState.Proofs.Construction.Iteration
/-!
The language that an expression denotes.  The simplifying constructors denote what the plain ones
do, and the automaton of an expression accepts what the expression denotes.
-/

namespace FiniteState

universe u

variable {L : Type u}

namespace Expression

def language : Expression L → Language L
  | zero => 0
  | one => 1
  | letter l => {[l]}
  | sum left right => left.language + right.language
  | product left right => left.language * right.language
  | iteration body => KStar.kstar body.language

section Simplify

@[simp] theorem language_add [DecidableEq L] (e f : Expression L) :
    (e.add f).language = e.language + f.language := by
  unfold add
  split
  · rw [language, zero_add]
  · rw [language, add_zero]
  · split
    · rename_i h
      rw [h, add_idem]
    · rw [language]

@[simp] theorem language_mul (e f : Expression L) :
    (e.mul f).language = e.language * f.language := by
  unfold mul
  split
  · rw [language, zero_mul]
  · rw [language, mul_zero]
  · rw [language, one_mul]
  · rw [language, mul_one]
  · rw [language]

@[simp] theorem language_star (e : Expression L) :
    e.star.language = KStar.kstar e.language := by
  unfold star
  split
  · rw [language, language, kstar_zero]
  · rw [language, kstar_one]
  · rw [language, kstar_idem]
  · rw [language]

end Simplify

/-- The automaton of an expression accepts what the expression denotes. -/
theorem language_automaton [Label L] (e : Expression L) : e.automaton.language = e.language := by
  induction e with
  | zero => exact Automaton.language_zero
  | one => exact Automaton.language_one
  | letter l => exact Automaton.language_letter l
  | sum e f ihe ihf => rw [automaton, Automaton.language_union, ihe, ihf, language]
  | product e f ihe ihf => rw [automaton, Automaton.language_concatenation, ihe, ihf, language]
  | iteration e ih => rw [automaton, Automaton.language_star, ih, language]

/-- The automaton of every expression accepts exactly the language that the expression denotes, and
the simplifying constructors denote what the plain ones do. -/
theorem expressions_denote_their_languages [Label L] :
    (∀ (e : Expression L) (w : List L), e.automaton.accepts w = true ↔ w ∈ e.language) ∧
    (∀ e f : Expression L, (e.add f).language = (sum e f).language) ∧
    (∀ e f : Expression L, (e.mul f).language = (product e f).language) ∧
    ∀ e : Expression L, e.star.language = (iteration e).language := by
  refine ⟨fun e w => ?_, fun e f => ?_, fun e f => ?_, fun e => ?_⟩
  · rw [Automaton.accepts_iff_mem_language, language_automaton]
  · rw [language_add, language]
  · rw [language_mul, language]
  · rw [language_star, language]

end Expression

end FiniteState
