import FiniteState.Automaton.Growth
/-!
Automata from their parts.  An automaton is determined by the flags of its states and its set of
transitions; all constructions of this library give those two and leave the rest to `ofParts`.  A
blueprint is a description by numbered states, which may mention states before they exist.  It may
be given part by part, and several parts may say the same.
-/

namespace FiniteState

universe u

variable {L : Type u} [Label L]

namespace Automaton

def ofStates (flags : List Flags) : Automaton L :=
  flags.foldl (fun A f => A.addState f.initial f.terminal) empty

/-- The automaton with the given states and transitions.  Transitions that mention other states
are left out. -/
def ofParts (flags : List Flags) (transitions : List (Transition L)) : Automaton L :=
  transitions.foldl connect (ofStates flags)

def flags (A : Automaton L) : List Flags :=
  A.states.map fun p => ⟨A.isInitial p, A.isTerminal p⟩

end Automaton

/-- A description of an automaton by numbered states. -/
structure Blueprint (L : Type u) where
  /-- There are at least this many states. -/
  states : Nat
  transitions : List (Transition L)
  initials : List Nat
  terminals : List Nat

namespace Blueprint

/-- The description that says what both of them say. -/
def merge (b b' : Blueprint L) : Blueprint L :=
  ⟨max b.states b'.states, b.transitions ++ b'.transitions, b.initials ++ b'.initials,
    b.terminals ++ b'.terminals⟩

/-- The description that is given part by part. -/
def mergeAll (parts : List (Blueprint L)) : Blueprint L :=
  parts.foldl merge ⟨0, [], [], []⟩

def mentioned (b : Blueprint L) : List Nat :=
  b.transitions.flatMap (fun t => [t.start, t.target]) ++ b.initials ++ b.terminals

/-- There is a state for every number up to the largest one that is mentioned, as long as the number
of states has 64 bits.  What comes after the largest of all numbers is zero. -/
def size (b : Blueprint L) : Nat :=
  b.mentioned.foldl (fun n p => max n ((p + 1) % UInt64.size)) b.states

/-- The automaton with these states and with the transitions between them. -/
def automaton (b : Blueprint L) : Automaton L :=
  Automaton.ofParts
    ((List.range b.size).map fun p => ⟨b.initials.contains p, b.terminals.contains p⟩)
    b.transitions

/-- The automaton that is described, unless a transition mentions a state that is not there. -/
def build (b : Blueprint L) : Option (Automaton L) :=
  if b.transitions.all fun t => t.start < b.size && t.target < b.size then some b.automaton
  else none

end Blueprint

end FiniteState
