import FiniteState.Handle.Relation
import FiniteState.Proofs.Handle.Basic
import FiniteState.Proofs.Relation.LeastDifference
/-!
Comparing two automata by the words they accept.  A word shows a difference between two sets of
states exactly if it is accepted from one of them only, so the sets are told apart by the first such
word, and the initial states do not differ exactly if the automata accept the same words.
-/

namespace FiniteState

universe u

variable {L : Type u} [Label L]

namespace Comparison

variable {left right : Tagged L} {r : Comparison L} {S T : HandleSet} {w : List L}

/-- The word is accepted from exactly one of the two sets. -/
def Distinguishes (left right : Tagged L) (S T : HandleSet) (w : List L) : Prop :=
  ¬ (w ∈ left.acceptedFrom S ↔ w ∈ right.acceptedFrom T)

theorem differs_language_iff :
    Difference.Differs left.automaton right.automaton .language
        (left.automaton.closure (left.own S.toList), right.automaton.closure (right.own T.toList)) w
      ↔ Distinguishes left right S T w := by
  rw [Distinguishes, ← Tagged.meetsTerminal_readFrom_iff, ← Tagged.meetsTerminal_readFrom_iff,
    ← Bool.eq_iff_iff]
  constructor
  · rintro ⟨v, _, rfl, rfl, hne⟩
    rwa [List.append_nil]
  · exact fun hne => ⟨w, [], (List.append_nil w).symm, rfl, hne⟩

/-- What is found out about two sets of words: whether they are equal, and otherwise the first word
that belongs to one of them only. -/
structure TellsApart (answer : Bool × Comparison L) (words others : Language L) : Prop where
  holds_iff : answer.1 = true ↔ words = others
  none_of_holds : answer.1 = true → answer.2.counterexample = none
  first_of_fails : answer.1 = false →
    ∃ w, answer.2.counterexample = some w ∧ IsFirst (fun w => ¬ (w ∈ words ↔ w ∈ others)) w

/-- Sets of states are told apart by the words that show a difference. -/
theorem tellsApart_of_differs_iff {words others : Language L}
    (h : ∀ w, Difference.Differs r.left.automaton r.right.automaton r.aspect
        (r.left.automaton.closure (r.left.own S.toList),
          r.right.automaton.closure (r.right.own T.toList)) w ↔ ¬ (w ∈ words ↔ w ∈ others)) :
    TellsApart (r.equivalentSets S T) words others := by
  rw [equivalentSets]
  refine ⟨?_, Option.isNone_iff_eq_none.mp, fun hfails => ?_⟩
  · rw [Option.isNone_iff_eq_none, Difference.first?_eq_none_iff_not_differs]
    simp only [h, not_not]
    exact Set.ext_iff.symm
  · obtain ⟨w, hw⟩ := Option.isSome_iff_exists.mp (Option.isNone_eq_false_iff.mp hfails)
    exact ⟨w, hw, (Difference.isFirst_of_first? hw).congr h⟩

theorem tellsApart_language (h : r.aspect = .language) :
    TellsApart (r.equivalentSets S T) (r.left.acceptedFrom S) (r.right.acceptedFrom T) :=
  tellsApart_of_differs_iff fun _ => h ▸ differs_language_iff

/-- Sets of states are found to be equivalent exactly if the same words are accepted from them. -/
theorem equivalentSets_language_iff (h : r.aspect = .language) :
    (r.equivalentSets S T).1 = true ↔ r.left.acceptedFrom S = r.right.acceptedFrom T :=
  (tellsApart_language h).holds_iff

/-- The automata are found to be equivalent exactly if they accept the same words. -/
theorem areEquivalent_language_iff :
    (between left right .language).areEquivalent.1 = true ↔
      ∀ w, left.automaton.accepts w = right.automaton.accepts w := by
  rw [areEquivalent, equivalentSets_language_iff rfl, ← Automaton.language_eq_iff,
    ← Tagged.acceptedFrom_initials, ← Tagged.acceptedFrom_initials]
  exact Iff.rfl

end Comparison

end FiniteState
