import FiniteState.Automaton.Build
import FiniteState.LookupSet
import FiniteState.Numbering
import FiniteState.Partition
/-!
Merging states that cannot be told apart.  Terminal and other states are separated first, and then
states are separated as long as they differ in the classes that their transitions lead to.
-/

namespace FiniteState

universe u

variable {L : Type u} [Label L]

namespace Automaton

/-- What one round of refinement compares: the class of a state, and the classes that its
transitions lead to, by label. -/
def signature (A : Automaton L) (classes : Array Nat) (p : Nat) : Nat × OrderedSet (Move L) :=
  (classes.getD p 0, (A.outgoing p).image fun m => ⟨m.label, classes.getD m.state 0⟩)

/-- Separate states with different signatures.  The new classes are numbered in the order of their
first states. -/
def refineOnce (A : Automaton L) (classes : Array Nat) : Array Nat :=
  (numberByFirst (A.states.map (A.signature classes))).toArray

def countClasses (classes : Array Nat) : Nat :=
  (LookupSet.ofList classes.toList).size

/-- Refine until the number of classes, which is `count` at first, no longer grows. -/
def refineFrom (A : Automaton L) : Nat → Nat → Array Nat → Array Nat
  | 0, _, classes => classes
  | rounds + 1, count, classes =>
      let next := A.refineOnce classes
      let found := countClasses next
      if found = count then next
      else A.refineFrom rounds found next

/-- The terminal states in one class, and the others in another one. -/
def terminalClasses (A : Automaton L) : Array Nat :=
  (A.states.map fun p => (A.isTerminal p).toNat).toArray

/-- The class of every state in the coarsest stable partition.  Every round but the last one finds
another class. -/
def refine (A : Automaton L) : Array Nat :=
  A.refineFrom (A.size + 1) (countClasses A.terminalClasses) A.terminalClasses

def stablePartition (A : Automaton L) : Partition Nat :=
  .ofAssignment A.states A.refine.toList

/-- The automaton whose states are the classes of `A`.  A class is initial if one of its members is,
and terminal if one of its members is. -/
def mergeBy (A : Automaton L) (classes : Array Nat) : Automaton L :=
  let count := classes.foldl (fun n c => max n (c + 1)) 0
  let starts := LookupSet.ofList (A.initials.toList.map fun p => classes.getD p 0)
  let ends := LookupSet.ofList (A.terminals.toList.map fun p => classes.getD p 0)
  ofParts
    ((List.range count).map fun c => ⟨starts.contains c, ends.contains c⟩)
    (A.transitions.map fun t =>
      ⟨classes.getD t.start 0, t.label, classes.getD t.target 0⟩)

/-- The automaton with indistinguishable states merged. -/
def reduce (A : Automaton L) : Automaton L :=
  A.mergeBy A.refine

end Automaton

end FiniteState
