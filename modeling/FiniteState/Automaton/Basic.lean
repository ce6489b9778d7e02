import FiniteState.Automaton.Arena
/-!
Finite automata.  The states of an automaton are the numbers below its size.  A state may be
initial, terminal or both, and transitions lead from state to state, each of them reading a label
or nothing at all.  A transition is recorded at both of its ends, so it can be followed in both
directions.

States and transitions are only ever added.  The operations on arenas are the only ones that touch
the records, everything else is built from them.
-/

namespace FiniteState

universe u

/-- A finite automaton over the labels `L`: records that agree with each other. -/
structure Automaton (L : Type u) [Label L] where
  arena : Arena L
  wellFormed : arena.WellFormed

namespace Automaton

variable {L : Type u} [Label L]

def size (A : Automaton L) : Nat :=
  A.arena.flags.size

def transitionCount (A : Automaton L) : Nat :=
  A.arena.transitionCount

def names (A : Automaton L) : List (String × Nat) :=
  A.arena.names

def isEmpty (A : Automaton L) : Bool :=
  A.size == 0

/-- The states in the order in which they were added. -/
def states (A : Automaton L) : List Nat :=
  List.range A.size

def isInitial (A : Automaton L) (p : Nat) : Bool :=
  A.arena.flags[p]?.any Flags.initial

def isTerminal (A : Automaton L) (p : Nat) : Bool :=
  A.arena.flags[p]?.any Flags.terminal

def initials (A : Automaton L) : StateSet :=
  (OrderedSet.range A.size).filter A.isInitial

def terminals (A : Automaton L) : StateSet :=
  (OrderedSet.range A.size).filter A.isTerminal

def outgoing (A : Automaton L) (p : Nat) : OrderedSet (Move L) :=
  (A.arena.outgoingAt p).moves

def incoming (A : Automaton L) (p : Nat) : OrderedSet (Move L) :=
  (A.arena.incomingAt p).moves

/-- The transitions out of `p`, by label and target. -/
def transitionsFrom (A : Automaton L) (p : Nat) : List (Transition L) :=
  (A.outgoing p).toList.map fun m => ⟨p, m.label, m.state⟩

/-- All transitions, by start, label and target. -/
def transitions (A : Automaton L) : List (Transition L) :=
  A.states.flatMap A.transitionsFrom

/-- The states that one transition on `l` leads to from `p`, in increasing order. -/
def successors (A : Automaton L) (p : Nat) (l : Option L) : List Nat :=
  ((A.arena.outgoingAt p).statesAt l).toList

/-- The states from which one transition on `l` leads to `p`, in increasing order. -/
def predecessors (A : Automaton L) (p : Nat) (l : Option L) : List Nat :=
  ((A.arena.incomingAt p).statesAt l).toList

def hasTransition (A : Automaton L) (t : Transition L) : Bool :=
  ((A.arena.outgoingAt t.start).statesAt t.label).contains t.target

def labelsFrom (A : Automaton L) (p : Nat) : OrderedSet (Option L) :=
  (A.arena.outgoingAt p).labels

/-- The labels that some transition reads. -/
def alphabet (A : Automaton L) : OrderedSet L :=
  OrderedSet.ofList (A.arena.outgoing.toList.flatMap fun a => a.labels.toList.filterMap id)

/-- Whether every transition reads a label. -/
def isEpsilonFree (A : Automaton L) : Bool :=
  A.arena.outgoing.toList.all fun a => !a.labels.contains none

/-- Whether there is at most one initial state, every transition reads a label and no two
transitions from one state read the same one. -/
def isDeterministic (A : Automaton L) : Bool :=
  decide (A.initials.size ≤ 1) && A.isEpsilonFree &&
    A.arena.outgoing.toList.all fun a => a.entries.all fun e => decide (e.2.size ≤ 1)

def stateNamed? (A : Automaton L) (name : String) : Option Nat :=
  (A.names.find? fun entry => entry.1 == name).map Prod.snd

def nameOf? (A : Automaton L) (p : Nat) : Option String :=
  (A.names.find? fun entry => entry.2 == p).map Prod.fst

def empty : Automaton L :=
  ⟨.empty, Arena.wellFormed_empty⟩

instance : Inhabited (Automaton L) := ⟨empty⟩

end Automaton

end FiniteState
