import FiniteState.Proofs.Handle.Counterexample
/-!
Comparing two automata by the words that can be read.  A trace is a non-empty word that some run
from the states reads, no matter where it ends.  A configuration shows a difference exactly if it
offers a label on one side only, and that is the last label of a word which is a trace of one side
only; so the first difference in length-lexicographic order is found here as well.
-/

namespace FiniteState

universe u

variable {L : Type u} [Label L]

namespace Tagged

variable {T : Tagged L} {S : HandleSet} {w : List L} {l : L}

/-- The words other than the empty one that can be read from some state of the set. -/
def tracesFrom (T : Tagged L) (S : HandleSet) : Language L :=
  { w | w ≠ [] ∧ ∃ h ∈ S, T.contains h = true ∧ ∃ q, Run T.automaton.Moves h.index w q }

/-- What is offered after a word are the labels that go on with a trace. -/
theorem mem_offered_readFrom_iff :
    l ∈ T.automaton.offered (T.automaton.readFrom (T.automaton.closure (T.own S.toList)) w) ↔
      w ++ [l] ∈ T.tracesFrom S := by
  rw [Difference.mem_offered]
  simp only [mem_readFrom_own]
  constructor
  · rintro ⟨p, ⟨h, hh, hcontains, hrun⟩, q, hmove⟩
    exact ⟨by simp, h, hh, hcontains, q, Run.concat_iff.mpr ⟨p, q, hrun, hmove, Run.done q⟩⟩
  · rintro ⟨-, h, hh, hcontains, _, hrun⟩
    obtain ⟨p, q, hrun, hmove, -⟩ := Run.concat_iff.mp hrun
    exact ⟨p, ⟨h, hh, hcontains, hrun⟩, q, hmove⟩

end Tagged

namespace Comparison

variable {left right : Tagged L} {S T : HandleSet} {w : List L}

/-- A word shows a difference exactly if it is a trace of one side only. -/
theorem differs_traces_iff :
    Difference.Differs left.automaton right.automaton .traces
        (left.automaton.closure (left.own S.toList), right.automaton.closure (right.own T.toList)) w
      ↔ ¬ (w ∈ left.tracesFrom S ↔ w ∈ right.tracesFrom T) := by
  have hconcat (v : List L) (l : L) :
      l ∈ (left.automaton.offered (Difference.after left.automaton right.automaton
          (left.automaton.closure (left.own S.toList),
            right.automaton.closure (right.own T.toList)) v).1).symmetricDifference
        (right.automaton.offered (Difference.after left.automaton right.automaton
          (left.automaton.closure (left.own S.toList),
            right.automaton.closure (right.own T.toList)) v).2) ↔
      ¬ (v ++ [l] ∈ left.tracesFrom S ↔ v ++ [l] ∈ right.tracesFrom T) := by
    rw [OrderedSet.mem_symmetricDifference]
    simp only [Difference.after, Tagged.mem_offered_readFrom_iff]
    tauto
  constructor
  · rintro ⟨v, _, rfl, l, hl, rfl⟩
    exact (hconcat v l).mp hl
  · intro hw
    rcases List.eq_nil_or_concat' w with rfl | ⟨v, l, rfl⟩
    · exact absurd (iff_of_false (fun h => h.1 rfl) fun h => h.1 rfl) hw
    · exact ⟨v, [l], rfl, l, (hconcat v l).mpr hw, rfl⟩

end Comparison

/-- Whatever was asked before, two sets of states are found to be equivalent exactly if they have
the same traces, and otherwise they are told apart by the first word that is a trace of one of them
only. -/
theorem traces_told_apart_after_any_history (left right : Tagged L) (history : List Question)
    (S T : HandleSet) :
    Comparison.TellsApart
      (((Comparison.between left right .traces).after history).equivalentSets S T)
      (left.tracesFrom S) (right.tracesFrom T) := by
  obtain ⟨found, hafter⟩ := (Comparison.between left right .traces).exists_after_eq history
  rw [hafter]
  exact Comparison.tellsApart_of_differs_iff fun _ => Comparison.differs_traces_iff

/-- Terminal states do not matter: whoever reads `ab` has read `a`. -/
example :
    (Comparison.between ⟨0, .word ['a', 'b']⟩ ⟨1, (Automaton.word ['a']).union (.word ['a', 'b'])⟩
      .traces).areEquivalent.1 = true := by
  decide +kernel

end FiniteState
