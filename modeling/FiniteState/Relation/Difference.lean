import FiniteState.Automaton.Reachability
/-!
The first difference between two sets of states.  Pairs of configurations, the sets of states in
which the two automata may be after reading the same word, are explored breadth first.  What counts
as a difference depends on what is compared: the words that are accepted, or those that can be read
at all.
-/

namespace FiniteState

universe u

/-- What two sets of states are compared by. -/
inductive Aspect where
  /-- The words that are accepted. -/
  | language
  /-- The words that can be read, no matter where reading them ends. -/
  | traces
deriving DecidableEq, Repr

/-- Where the two automata may be after reading the same word. -/
abbrev Configuration := StateSet × StateSet

variable {L : Type u} [Label L]

/-- The labels that can be read next in one of the states. -/
def Automaton.offered (A : Automaton L) (states : StateSet) : OrderedSet L :=
  OrderedSet.ofList
    (states.toList.flatMap fun p => (A.outgoing p).toList.filterMap Move.label)

namespace Difference

variable (A B : Automaton L)

/-- The shortest continuation on which a configuration shows a difference at once. -/
def witness? (aspect : Aspect) (c : Configuration) : Option (List L) :=
  match aspect with
  | .language => if A.meetsTerminal c.1 != B.meetsTerminal c.2 then some [] else none
  | .traces =>
      ((A.offered c.1).symmetricDifference (B.offered c.2)).toList.head?.map fun l => [l]

/-- The configurations after one more label.  What has become empty on both sides is left out. -/
def next (node : Configuration × List L) : List (Configuration × List L) :=
  ((A.offered node.1.1).union (B.offered node.1.2)).toList.filterMap fun l =>
    let c := (A.advance node.1.1 l, B.advance node.1.2 l)
    if c.1.isEmpty && c.2.isEmpty then none else some (c, l :: node.2)

/-- Keep the first arrival at every configuration that was not seen before. -/
def fresh (seen : LookupSet Configuration) :
    List (Configuration × List L) → List (Configuration × List L) × LookupSet Configuration
  | [] => ([], seen)
  | node :: rest =>
      if seen.contains node.1 then fresh seen rest
      else
        let (later, seen) := fresh (seen.insert node.1) rest
        (node :: later, seen)

/-- Explore layer by layer until a configuration shows a difference. -/
def search (aspect : Aspect) : Nat → LookupSet Configuration → List (Configuration × List L) →
    Option (List L)
  | 0, _, _ => none
  | rounds + 1, seen, layer =>
      if layer.isEmpty then none
      else
        match layer.findSome? fun node =>
            (witness? A B aspect node.1).map fun w => node.2.reverse ++ w with
        | some w => some w
        | none =>
            let (later, seen) := fresh seen (layer.flatMap (next A B))
            search aspect rounds seen later

/-- The first word in length-lexicographic order on which the sets of states differ. -/
def first? (aspect : Aspect) (states others : List Nat) : Option (List L) :=
  let start := (A.closure states, B.closure others)
  search A B aspect (Nat.pow 2 A.size * Nat.pow 2 B.size + 1) (LookupSet.ofList [start])
    [(start, [])]

end Difference

end FiniteState
