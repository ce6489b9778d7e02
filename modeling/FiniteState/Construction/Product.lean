import FiniteState.Construction.Unfolding
/-!
Products of two automata.  The states are the pairs of states that can be reached; what moves there
are between pairs is decided by a synchronization.
-/

namespace FiniteState

universe u

variable {L : Type u}

/-- How the transitions of two automata are combined.  A label that synchronizes is never read by
one automaton alone. -/
structure Synchronization (L : Type u) where
  synchronizes : L → Bool
  /-- The label that is read when the automata read these labels together, if they can. -/
  joint : L → L → Option L

namespace Synchronization

variable [Label L]

/-- The given labels have to be read by both automata together. -/
def common (labels : OrderedSet L) : Synchronization L where
  synchronizes := labels.contains
  joint l r := if l = r ∧ labels.contains l then some l else none

/-- The labels that occur in both automata have to be read together. -/
def commonOf (A B : Automaton L) : Synchronization L :=
  common (A.alphabet.filter B.alphabet.contains)

/-- Every label has to be read by both automata together. -/
def synchronous : Synchronization L where
  synchronizes _ := true
  joint l r := if l = r then some l else none

/-- The given labels synchronize, and a partial function gives the joint labels for pairs of
them. -/
def restricted (labels : OrderedSet L) (joint : L → L → Option L) : Synchronization L where
  synchronizes := labels.contains
  joint l r := if labels.contains l && labels.contains r then joint l r else none

end Synchronization

namespace Automaton

variable [Label L]

/-- The product of two automata with the given moves between pairs of states. -/
def product (A B : Automaton L) (moves : Nat × Nat → List (Option L × Nat × Nat)) : Automaton L :=
  Graph.automaton {
    starts := A.initials.toList.flatMap fun p => B.initials.toList.map fun q => (p, q)
    moves
    initial := fun (p, q) => A.isInitial p && B.isInitial q
    terminal := fun (p, q) => A.isTerminal p && B.isTerminal q
    bound := A.size * B.size }

/-- The moves of the left automaton that satisfy `p`, while the right one stays where it is. -/
def leftMoves (A : Automaton L) (p : Option L → Bool) (pair : Nat × Nat) :
    List (Option L × Nat × Nat) :=
  ((A.outgoing pair.1).toList.filter fun m => p m.label).map fun m =>
    (m.label, m.state, pair.2)

/-- The moves of the right automaton that satisfy `p`, while the left one stays where it is. -/
def rightMoves (B : Automaton L) (p : Option L → Bool) (pair : Nat × Nat) :
    List (Option L × Nat × Nat) :=
  ((B.outgoing pair.2).toList.filter fun m => p m.label).map fun m =>
    (m.label, pair.1, m.state)

def jointMoves (A B : Automaton L) (joint : L → L → Option L) (pair : Nat × Nat) :
    List (Option L × Nat × Nat) :=
  (A.outgoing pair.1).toList.flatMap fun m =>
    (B.outgoing pair.2).toList.filterMap fun n =>
      match m.label, n.label with
      | some l, some r => (joint l r).map fun j => (some j, m.state, n.state)
      | _, _ => none

/-- All interleavings of a word of `A` with a word of `B`. -/
def shuffle (A B : Automaton L) : Automaton L :=
  A.product B fun pair =>
    A.leftMoves (fun _ => true) pair ++ B.rightMoves (fun _ => true) pair

/-- The product in which labels that synchronize are read together and all others alone. -/
def mixWith (A B : Automaton L) (s : Synchronization L) : Automaton L :=
  let alone := fun (label : Option L) => label.all fun l => !s.synchronizes l
  A.product B fun pair =>
    A.leftMoves alone pair ++ B.rightMoves alone pair ++ A.jointMoves B s.joint pair

/-- The product in which the labels of both alphabets are read together. -/
def mix (A B : Automaton L) : Automaton L :=
  A.mixWith B (.commonOf A B)

/-- The words that both automata accept. -/
def intersection (A B : Automaton L) : Automaton L :=
  A.mixWith B .synchronous

end Automaton

end FiniteState
