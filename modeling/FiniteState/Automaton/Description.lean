import FiniteState.Automaton.Basic
import FiniteState.Text.Grid
/-!
Automata as text: a description that lists the transitions, and a table with one row for every state
and one column for every label.
-/

namespace FiniteState

universe u

variable {L : Type u} [Label L]

def showState (p : Nat) : String :=
  "q" ++ shown p

def showStates (states : List Nat) : String :=
  Text.showCollection (states.map showState)

instance : Shown (Transition L) :=
  ⟨fun t => "(" ++ showState t.start ++ ", " ++ shown t.label ++ ", " ++ showState t.target ++ ")"⟩

namespace Automaton

/-- The size of the automaton, its initial and terminal states, and one line for every
transition. -/
def description (A : Automaton L) : String :=
  "automaton with " ++ shown A.size ++ " states, initial " ++ showStates A.initials.toList ++
    " and terminal " ++ showStates A.terminals.toList ++ "\n" ++
    String.join (A.transitions.map fun t => "  " ++ shown t ++ "\n")

/-- The labels of the columns of the table, the silent moves first, if there are any. -/
def columns (A : Automaton L) : List (Option L) :=
  (if A.isEpsilonFree then [] else [none]) ++ A.alphabet.toList.map some

/-- The name of a state in the table, marked if the state is initial or terminal. -/
def rowTitle (A : Automaton L) (p : Nat) : String :=
  (if A.isInitial p then "→" else "") ++ (A.nameOf? p).getD (showState p) ++
    (if A.isTerminal p then "*" else "")

def tableCell (A : Automaton L) (p : Nat) (label : Option L) : String :=
  match A.successors p label with
  | [] => "-"
  | targets => showStates targets

def table (A : Automaton L) : String :=
  Text.Grid.render ("State" :: A.columns.map shown)
    (A.states.map fun p => A.rowTitle p :: A.columns.map (A.tableCell p))

end Automaton

end FiniteState
