import FiniteState.LookupSet
/-!
Traversals of a graph.  Breadth first, a node is marked when it is discovered, so it enters the
frontier at most once: the nodes of a layer in order, and for each of them its neighbours in order.
Depth first, a node is marked when it is taken from the stack, where it may stand several times.
-/

namespace FiniteState

universe u

variable {α : Type u} [Ordered α]

namespace Traversal

/-- Keep the first occurrence of every node that was not seen before, and see it. -/
def fresh (seen : LookupSet α) : List α → List α × LookupSet α
  | [] => ([], seen)
  | node :: rest =>
      if seen.contains node then fresh seen rest
      else
        let (later, seen) := fresh (seen.insert node) rest
        (node :: later, seen)

/-- Expand the frontier for a number of rounds, or until it is empty.  Nodes that were seen have
been expanded or are in the frontier. -/
def visit (next : α → List α) : Nat → LookupSet α → List α → List α
  | 0, _, frontier => frontier
  | rounds + 1, seen, frontier =>
      if frontier.isEmpty then []
      else
        let (later, seen) := fresh seen (frontier.flatMap next)
        frontier ++ visit next rounds seen later

/-- Push the neighbours of a node in order, except for those that are marked. -/
def push (next : α → List α) (marked : LookupSet α) (node : α) (stack : List α) : List α :=
  ((next node).filter fun a => !marked.contains a).reverse ++ stack

/-- Take nodes from a stack, the top of which comes first, until it is empty or the steps are used
up.  A node that is not marked yet is marked and listed, and then its neighbours are pushed. -/
def sweep (next : α → List α) : Nat → LookupSet α → List α → List α
  | 0, _, _ => []
  | _ + 1, _, [] => []
  | steps + 1, marked, node :: stack =>
      if marked.contains node then sweep next steps marked stack
      else
        let marked := marked.insert node
        node :: sweep next steps marked (push next marked node stack)

end Traversal

/-- The nodes that can be reached from `starts`, in the order of their discovery.  Every round but
the last one discovers a node, so as many rounds as there are nodes are enough. -/
def reach (next : α → List α) (bound : Nat) (starts : List α) : List α :=
  let (first, seen) := Traversal.fresh ∅ starts
  Traversal.visit next bound seen first

end FiniteState
