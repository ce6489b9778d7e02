import FiniteState.Automaton.Basic
import FiniteState.Traversal
/-!
A shortest accepted word.  The search settles states in the order of their distance, the number of
labels that have to be read to reach them.  Silent moves cost nothing, so they are followed at once
and stay in the current layer, while reading a label leads into the next layer.
-/

namespace FiniteState

universe u

variable {L : Type u} [Label L]

namespace ShortestWord

/-- A state that was reached, with the labels read on the way to it, the last one first. -/
structure Arrival (L : Type u) where
  state : Nat
  trace : List L

/-- What is known in the middle of a search. -/
structure Progress (L : Type u) where
  /-- Arrivals at the current distance, the next one to be settled first. -/
  current : List (Arrival L)
  /-- Arrivals at the next distance, the latest one first. -/
  later : List (Arrival L)
  /-- The smallest distance at which a state was reached so far. -/
  distance : Array (Option Nat)
  /-- The states whose transitions have been followed. -/
  settled : LookupSet Nat

/-- Whether reaching `q` at distance `d` is better than what is known. -/
def improves (distance : Array (Option Nat)) (q d : Nat) : Bool :=
  match distance[q]? with
  | some (some known) => d < known
  | _ => true

/-- Follow one move from the place of an arrival. -/
def follow (a : Arrival L) (progress : Progress L) (m : Move L) : Progress L :=
  match m.label with
  | none =>
      let d := a.trace.length
      if improves progress.distance m.state d then
        { progress with
          current := ⟨m.state, a.trace⟩ :: progress.current
          distance := progress.distance.setIfInBounds m.state (some d) }
      else progress
  | some l =>
      let d := a.trace.length + 1
      if improves progress.distance m.state d then
        { progress with
          later := ⟨m.state, l :: a.trace⟩ :: progress.later
          distance := progress.distance.setIfInBounds m.state (some d) }
      else progress

/-- Take the next arrival.  When the current layer is used up, the next one becomes current. -/
def takeNext (progress : Progress L) : Option (Arrival L × Progress L) :=
  match progress.current with
  | a :: rest => some (a, { progress with current := rest })
  | [] =>
      match progress.later.reverse with
      | a :: rest => some (a, { progress with current := rest, later := [] })
      | [] => none

/-- Settle arrivals until one of them is in a terminal state. -/
def search (A : Automaton L) : Nat → Progress L → Option (List L)
  | 0, _ => none
  | arrivals + 1, progress =>
      match takeNext progress with
      | none => none
      | some (a, progress) =>
          if progress.settled.contains a.state then search A arrivals progress
          else if A.isTerminal a.state then some a.trace.reverse
          else
            let progress := { progress with settled := progress.settled.insert a.state }
            search A arrivals ((A.outgoing a.state).toList.foldl (follow a) progress)

def begin (A : Automaton L) : Progress L where
  current := A.initials.toList.map fun p => ⟨p, []⟩
  later := []
  distance := (A.states.map fun p => if A.isInitial p then some 0 else none).toArray
  settled := ∅

end ShortestWord

/-- A shortest accepted word, if any word is accepted.  There is at most one arrival for each
initial state and for each transition. -/
def Automaton.shortestWord? (A : Automaton L) : Option (List L) :=
  ShortestWord.search A (A.size + A.transitionCount + 1) (ShortestWord.begin A)

end FiniteState
