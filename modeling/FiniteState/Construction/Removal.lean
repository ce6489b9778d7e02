import FiniteState.Automaton.Build
import FiniteState.Automaton.Reachability
import FiniteState.Numbering
/-!
Removal of silent transitions, and of the states that lie on no path from an initial to a terminal
state.
-/

namespace FiniteState

universe u

variable {L : Type u} [Label L]

namespace Automaton

/-- The automaton without silent transitions.  The states stay the same; each of them gets the
transitions of all states that it reaches silently. -/
def removeEpsilon (A : Automaton L) : Automaton L :=
  ofParts (A.states.map fun p => ⟨A.isInitial p, A.meetsTerminal (A.closure [p])⟩)
    (A.states.flatMap fun p =>
      (A.closure [p]).toList.flatMap fun q =>
        ((A.outgoing q).toList.filter fun m => m.label.isSome).map fun m =>
          ⟨p, m.label, m.state⟩)

/-- The automaton that is left when only some states are kept, in their order. -/
def restrict (A : Automaton L) (kept : StateSet) : Automaton L :=
  let places := positions kept.toList
  ofParts (kept.toList.map fun p => ⟨A.isInitial p, A.isTerminal p⟩)
    (A.transitions.filterMap fun t =>
      match places[t.start]?, places[t.target]? with
      | some p, some q => some ⟨p, t.label, q⟩
      | _, _ => none)

def trim (A : Automaton L) : Automaton L :=
  A.restrict A.useful

end Automaton

end FiniteState
