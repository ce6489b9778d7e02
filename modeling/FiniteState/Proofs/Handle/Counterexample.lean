import FiniteState.Construction.Regular
import FiniteState.Proofs.Handle.Coinductive
import FiniteState.Proofs.Handle.Comparison
/-!
Questions about languages that are asked one after the other.  Nothing but the latest difference is
kept, and no answer depends on it, so every answer is as good as the first one.  A question about a
foreign state is denied without a search, and the latest difference stays.
-/

namespace FiniteState

universe u

variable {L : Type u} [Label L]

namespace Comparison

variable {left right : Tagged L} {S T : HandleSet} {s t : Handle} {r : Comparison L}

def after (r : Comparison L) : List Question → Comparison L
  | [] => r
  | .states s t :: rest => (r.equivalent s t).2.after rest
  | .sets s t :: rest => (r.equivalentSets s t).2.after rest

/-- Questions change nothing but the latest difference. -/
theorem exists_after_eq (r : Comparison L) (history : List Question) :
    ∃ found, r.after history = { r with counterexample := found } := by
  induction history generalizing r with
  | nil => exact ⟨r.counterexample, rfl⟩
  | cons question rest ih =>
      cases question with
      | states s t =>
          rw [after, equivalent]
          split
          · exact ih (r.equivalentSets (OrderedSet.ofList [s]) (OrderedSet.ofList [t])).2
          · exact ih r
      | sets s t => exact ih (r.equivalentSets s t).2

/-- Whatever was asked before, the initial states are compared anew. -/
theorem areEquivalent_after (r : Comparison L) (history : List Question) :
    (r.after history).areEquivalent.1 = r.areEquivalent.1 := by
  obtain ⟨found, hafter⟩ := r.exists_after_eq history
  rw [hafter]
  rfl

/-- A question about a foreign state is denied and changes nothing. -/
theorem equivalent_of_foreign (h : r.left.contains s = false ∨ r.right.contains t = false) :
    r.equivalent s t = (false, r) := by
  rw [equivalent, Bool.and_eq_false_iff.mpr h]
  rfl

/-- What is found out about two sets of states: whether the same words are accepted from them, and
otherwise the first word that is accepted from one of them only. -/
structure Settles (answer : Bool × Comparison L) (left right : Tagged L) (S T : HandleSet) :
    Prop where
  holds_iff : answer.1 = true ↔ left.acceptedFrom S = right.acceptedFrom T
  none_iff : answer.2.counterexample = none ↔ left.acceptedFrom S = right.acceptedFrom T
  first : ∀ w, answer.2.counterexample = some w → IsFirst (Distinguishes left right S T) w

theorem settles_equivalentSets (h : r.aspect = .language) :
    Settles (r.equivalentSets S T) r.left r.right S T := by
  have hholds := equivalentSets_language_iff h (S := S) (T := T)
  refine ⟨hholds, Option.isNone_iff_eq_none.symm.trans hholds, fun w hw => ?_⟩
  rw [equivalentSets, h] at hw
  exact (Difference.isFirst_of_first? hw).congr fun _ => differs_language_iff

end Comparison

/-- Whatever was asked before, two sets of states are told apart by the first word that is accepted
from one of them only, if there is one. -/
theorem languages_told_apart_after_any_history (left right : Tagged L) (history : List Question) :
    (∀ S T : HandleSet, Comparison.Settles
      (((Comparison.between left right .language).after history).equivalentSets S T)
        left right S T) ∧
    ∀ s t : Handle, left.contains s = false ∨ right.contains t = false →
      ((Comparison.between left right .language).after history).equivalent s t =
        (false, (Comparison.between left right .language).after history) := by
  obtain ⟨found, hafter⟩ := (Comparison.between left right .language).exists_after_eq history
  rw [hafter]
  exact ⟨fun S T => Comparison.settles_equivalentSets rfl,
    fun s t hforeign => Comparison.equivalent_of_foreign hforeign⟩

/-- An automaton that accepts `ab` and `ba`. -/
def eitherOrderSample : Tagged Char :=
  ⟨0, (Automaton.word ['a', 'b']).union (.word ['b', 'a'])⟩

/-- An automaton that accepts `ab` only. -/
def oneOrderSample : Tagged Char :=
  ⟨1, .word ['a', 'b']⟩

/-- The samples after a question about two of their states, which are told apart by `a`. -/
def sampleComparison : Comparison Char :=
  (Comparison.between eitherOrderSample oneOrderSample .language).after [.states ⟨0, 4⟩ ⟨1, 1⟩]

/-- The samples are told apart by `ba`, and a question about a foreign state does not touch the
difference that was found before. -/
theorem samples_told_apart :
    sampleComparison.counterexample = some ['a'] ∧
      IsFirst (Comparison.Distinguishes eitherOrderSample oneOrderSample
        eitherOrderSample.initials oneOrderSample.initials) ['b', 'a'] ∧
      sampleComparison.equivalent ⟨2, 0⟩ ⟨1, 0⟩ = (false, sampleComparison) := by
  have hbefore : sampleComparison.counterexample = some ['a'] := by
    decide +kernel
  have hfound : (sampleComparison.equivalentSets eitherOrderSample.initials
      oneOrderSample.initials).2.counterexample = some ['b', 'a'] := by
    decide +kernel
  have hforeign : eitherOrderSample.contains ⟨2, 0⟩ = false := by
    decide +kernel
  obtain ⟨hsets, hstates⟩ := languages_told_apart_after_any_history eitherOrderSample
    oneOrderSample [.states ⟨0, 4⟩ ⟨1, 1⟩]
  exact ⟨hbefore, (hsets _ _).first _ hfound, hstates _ _ (Or.inl hforeign)⟩

end FiniteState
