import FiniteState.Automaton.Basic
import FiniteState.Relation.Memo
/-!
Relations that are decided by matching transitions: every transition out of the left state is
answered by a transition of the right state with the same label, such that the targets are related
again.  If the relation is two-sided, the right state is answered by the left one in the same way.
-/

namespace FiniteState

universe u

/-- Two automata whose states are compared by matching transitions. -/
structure Matching (L : Type u) [Label L] where
  left : Automaton L
  right : Automaton L
  /-- Whether transitions are answered in both directions. -/
  twoSided : Bool

namespace Matching

variable {L : Type u} [Label L]

/-- Whether two states fit together as far as being terminal goes. -/
def flagsFit (m : Matching L) (pair : StatePair) : Bool :=
  if m.twoSided then m.left.isTerminal pair.1 == m.right.isTerminal pair.2
  else !m.left.isTerminal pair.1 || m.right.isTerminal pair.2

/-- Every move of the left state is answered by the right one. -/
def forth (m : Matching L) (related : StatePair → Inquiry) (pair : StatePair) : Inquiry :=
  Inquiry.every
    (fun (move : Move L) =>
      Inquiry.some (fun answer => related (move.state, answer))
        (m.right.successors pair.2 move.label))
    (m.left.outgoing pair.1).toList

/-- Every move of the right state is answered by the left one. -/
def back (m : Matching L) (related : StatePair → Inquiry) (pair : StatePair) : Inquiry :=
  Inquiry.every
    (fun (move : Move L) =>
      Inquiry.some (fun answer => related (answer, move.state))
        (m.left.successors pair.1 move.label))
    (m.right.outgoing pair.2).toList

/-- What has to hold for a pair to be related. -/
def obligations (m : Matching L) (related : StatePair → Inquiry) (pair : StatePair) : Inquiry :=
  (Inquiry.answer (m.flagsFit pair)).and
    ((m.forth related pair).and
      (if m.twoSided then m.back related pair else Inquiry.answer true))

/-- Search for a proof that a pair is related, with at most `depth` proofs inside each other. -/
def search (m : Matching L) : Nat → StatePair → Inquiry
  | 0, _ => Inquiry.answer false
  | depth + 1, pair => Inquiry.prove pair (m.obligations (m.search depth) pair)

/-- Whether a pair is related.  Proofs inside each other are about different pairs, so none is
deeper than the number of pairs. -/
def related (m : Matching L) (pair : StatePair) : Inquiry :=
  m.search (m.left.size * m.right.size + 1) pair

end Matching

end FiniteState
