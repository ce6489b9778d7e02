import FiniteState.Automaton.Basic
import FiniteState.Traversal
/-!
What can be reached from where: by silent moves alone, from the initial states, and backwards from
the terminal states.
-/

namespace FiniteState

universe u

variable {L : Type u} [Label L]

namespace Automaton

/-- The states that can be reached from `states` by moves that read nothing.  What is not a state of
the automaton is left out.  Besides `states`, the successors of every state are pushed once, so
there are steps enough. -/
def closure (A : Automaton L) (states : List Nat) : StateSet :=
  OrderedSet.ofList
    (Traversal.sweep (fun p => A.successors p none) (states.length + A.size * A.size) ∅
      (states.filter fun p => decide (p < A.size)).reverse)

/-- The states that can be reached from an initial state. -/
def accessible (A : Automaton L) : StateSet :=
  OrderedSet.ofList
    (reach (fun p => (A.outgoing p).toList.map Move.state) A.size A.initials.toList)

/-- The states from which a terminal state can be reached. -/
def coAccessible (A : Automaton L) : StateSet :=
  OrderedSet.ofList
    (reach (fun p => (A.incoming p).toList.map Move.state) A.size A.terminals.toList)

/-- The states that lie on a path from an initial state to a terminal one. -/
def useful (A : Automaton L) : StateSet :=
  A.accessible.inter A.coAccessible

/-- Whether no word is accepted. -/
def isEmptyLanguage (A : Automaton L) : Bool :=
  A.accessible.toList.all fun p => !A.isTerminal p

def step (A : Automaton L) (states : StateSet) (l : L) : StateSet :=
  OrderedSet.ofList (states.toList.flatMap fun p => A.successors p (some l))

/-- Read `l`, and then move silently. -/
def advance (A : Automaton L) (states : StateSet) (l : L) : StateSet :=
  A.closure (A.step states l).toList

/-- The states in which the automaton may be before it has read anything. -/
def start (A : Automaton L) : StateSet :=
  A.closure A.initials.toList

/-- The states in which the automaton may be after reading a word from one of `states`. -/
def readFrom (A : Automaton L) (states : StateSet) (w : List L) : StateSet :=
  w.foldl A.advance states

def meetsTerminal (A : Automaton L) (states : StateSet) : Bool :=
  states.toList.any A.isTerminal

/-- Read a word from one of `states`, but only as long as there are states left. -/
def readWhileAlive (A : Automaton L) (states : StateSet) : List L → StateSet
  | [] => states
  | l :: w => if states.isEmpty then states else A.readWhileAlive (A.advance states l) w

/-- Whether reading the word from an initial state can end in a terminal state. -/
def accepts (A : Automaton L) (w : List L) : Bool :=
  A.meetsTerminal (A.readWhileAlive A.start w)

end Automaton

end FiniteState
