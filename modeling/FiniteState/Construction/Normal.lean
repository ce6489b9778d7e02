import FiniteState.Construction.Regular
/-!
Normal automata have one initial state, which is never entered, and one terminal state, which is
never left.  Every automaton can be brought into this form, and an automaton that is not normal
fails in one of five ways.
-/

namespace FiniteState

universe u

variable {L : Type u} [Label L]

/-- Why an automaton is not normal. -/
inductive NormalFault where
  | initials (found : Nat)
  | terminals (found : Nat)
  | shared (state : Nat)
  | entered (state : Nat)
  | left (state : Nat)
deriving DecidableEq, Repr

namespace Automaton

/-- The automaton between a new first state and a new last state, which become the only initial and
the only terminal state. -/
def normalize (A : Automaton L) : Automaton L :=
  ofParts
    (⟨true, false⟩ :: A.states.map (fun _ => ⟨false, false⟩) ++ [⟨false, true⟩])
    (A.transitions.map (Transition.shift 1) ++
      bridge [0] (A.initials.toList.map (· + 1)) ++
      bridge (A.terminals.toList.map (· + 1)) [A.size + 1])

/-- The initial and the terminal state of a normal automaton. -/
def endpoints (A : Automaton L) : Except NormalFault (Nat × Nat) :=
  match A.initials.toList, A.terminals.toList with
  | [i], [t] =>
      if i = t then .error (.shared i)
      else if (A.incoming i).isEmpty = false then .error (.entered i)
      else if (A.outgoing t).isEmpty = false then .error (.left t)
      else .ok (i, t)
  | [_], terminals => .error (.terminals terminals.length)
  | initials, _ => .error (.initials initials.length)

end Automaton

end FiniteState
