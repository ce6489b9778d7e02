import FiniteState.Automaton.Build
import FiniteState.Numbering
import FiniteState.Traversal
/-!
Automata whose states stand for the nodes of a graph.  Only the nodes that can be reached become
states, numbered in the order in which a breadth-first traversal discovers them.
-/

namespace FiniteState

universe u v

variable {L : Type u} {α : Type v}

/-- A graph with labelled moves, of which a finite part is reachable. -/
structure Graph (L : Type u) (α : Type v) where
  starts : List α
  moves : α → List (Option L × α)
  initial : α → Bool
  terminal : α → Bool
  /-- No more than this many nodes are reachable. -/
  bound : Nat

namespace Graph

/-- The nodes that can be reached, in the order of their discovery. -/
def nodes [Ordered α] (g : Graph L α) : List α :=
  reach (fun a => (g.moves a).map Prod.snd) g.bound g.starts

def automaton [Ordered α] [Label L] (g : Graph L α) : Automaton L :=
  let nodes := g.nodes
  let places := positions nodes
  .ofParts (nodes.map fun a => ⟨g.initial a, g.terminal a⟩)
    (nodes.zipIdx.flatMap fun (a, i) =>
      (g.moves a).map fun m => ⟨i, m.1, places.getD m.2 0⟩)

end Graph

end FiniteState
