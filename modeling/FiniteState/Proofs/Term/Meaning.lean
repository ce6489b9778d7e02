import FiniteState.Proofs.Construction.Iteration
import FiniteState.Proofs.Construction.Product
import FiniteState.Proofs.Construction.Quotient
import FiniteState.Proofs.Construction.SilentFree
import FiniteState.Proofs.Construction.Trimmed
import FiniteState.Term.Basic
/-!
The language that a term denotes, and that its automaton accepts.  The letters that a mix
synchronizes are those of the languages, while its automaton goes by the alphabets of the
operands; the two agree because all automata of terms are trim.
-/

namespace FiniteState

universe u

variable {L : Type u}

section Operations

def letters (S : Language L) : Set L :=
  { l | ∃ w ∈ S, l ∈ w }

open Classical in
/-- What is left of a word when only some letters are kept. -/
noncomputable def project (kept : Set L) (w : List L) : List L :=
  w.filter fun l => l ∈ kept

/-- The words over the letters of both languages whose projections belong to the languages. -/
def mixed (S T : Language L) : Language L :=
  { w | (∀ l ∈ w, l ∈ letters S ∨ l ∈ letters T) ∧
      project (letters S) w ∈ S ∧ project (letters T) w ∈ T }

/-- The interleavings of a word of one language with a word of another one. -/
def shuffled (S T : Language L) : Language L :=
  { w | ∃ u ∈ S, ∃ v ∈ T, Interleaves u v w }

end Operations

def Term.language : Term L → Language L
  | zero => 0
  | one => 1
  | letter l => {[l]}
  | union left right => left.language + right.language
  | mix left right => mixed left.language right.language
  | shuffle left right => shuffled left.language right.language
  | concatenation left right => left.language * right.language
  | star body => KStar.kstar body.language
  | plus body => body.language * KStar.kstar body.language
  | power body times => body.language ^ times

variable [Label L]

namespace Automaton

variable {A B : Automaton L} {l : L}

theorem language_canonical : A.canonical.language = A.language := by
  rw [canonical, language_reduce, language_trim, language_removeEpsilon]

theorem trim_canonical : A.canonical.Trim :=
  trim_trim.reduce

theorem trim_one : (one : Automaton L).Trim := by
  intro p hp
  have hp : p = 0 := by simpa [one] using hp
  subst hp
  exact mem_useful.mpr ⟨⟨0, [], by simp [one], Run.done 0⟩, [], 0, Run.done 0, by simp [one]⟩

theorem trim_letter : (letter l).Trim := by
  have hmove : Run (letter l).Moves 0 [l] 1 :=
    Run.single (l := some l) (moves_letter.mpr ⟨rfl, rfl, rfl⟩)
  have hinitial : (letter l).isInitial 0 = true := by simp [letter]
  have hterminal : (letter l).isTerminal 1 = true := by simp [letter]
  intro p hp
  have hp : p < 2 := by simpa [letter] using hp
  rcases p with _ | _ | p
  · exact mem_useful.mpr ⟨⟨0, [], hinitial, Run.done 0⟩, [l], 1, hmove, hterminal⟩
  · exact mem_useful.mpr ⟨⟨0, [l], hinitial, hmove⟩, [], 1, Run.done 1, hterminal⟩
  · omega

/-- The mix of trim automata accepts the mix of their languages. -/
theorem language_mix (hA : A.Trim) (hB : B.Trim) :
    (A.mix B).language = mixed A.language B.language := by
  have hletters {C : Automaton L} (hC : C.Trim) (l : L) :
      l ∈ C.alphabet ↔ l ∈ letters C.language :=
    hC.mem_alphabet_iff
  have hproject {C : Automaton L} (hC : C.Trim) (w : List L) :
      w.filter C.alphabet.contains = project (letters C.language) w := by
    apply List.filter_congr
    intro l _
    rw [Bool.eq_iff_iff]
    simp only [OrderedSet.contains_iff, hletters hC, decide_eq_true_eq]
  ext w
  rw [mem_language_mix, hproject hA, hproject hB]
  simp only [hletters hA, hletters hB]
  rfl

theorem language_shuffle : (A.shuffle B).language = shuffled A.language B.language := by
  ext w
  exact mem_language_shuffle

end Automaton

namespace Term

theorem trim_automaton (t : Term L) : t.automaton.Trim := by
  cases t with
  | one => exact Automaton.trim_one
  | letter l => exact Automaton.trim_letter
  | _ => exact Automaton.trim_canonical

/-- The automaton of a term accepts the language that the term denotes. -/
theorem language_automaton (t : Term L) : t.automaton.language = t.language := by
  induction t with
  | zero => rw [automaton, Automaton.language_canonical, Automaton.language_zero, language]
  | one => exact Automaton.language_one
  | letter l => exact Automaton.language_letter l
  | union s t ihs iht =>
      rw [automaton, Automaton.language_canonical, Automaton.language_union, ihs, iht, language]
  | mix s t ihs iht =>
      rw [automaton, Automaton.language_canonical,
        Automaton.language_mix s.trim_automaton t.trim_automaton, ihs, iht, language]
  | shuffle s t ihs iht =>
      rw [automaton, Automaton.language_canonical, Automaton.language_shuffle, ihs, iht, language]
  | concatenation s t ihs iht =>
      rw [automaton, Automaton.language_canonical, Automaton.language_concatenation, ihs, iht,
        language]
  | star t ih => rw [automaton, Automaton.language_canonical, Automaton.language_star, ih, language]
  | plus t ih => rw [automaton, Automaton.language_canonical, Automaton.language_plus, ih, language]
  | power t n ih =>
      rw [automaton, Automaton.language_canonical, Automaton.language_power, ih, language]

end Term

end FiniteState
