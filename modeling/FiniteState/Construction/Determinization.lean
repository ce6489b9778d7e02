import FiniteState.Automaton.Reachability
import FiniteState.Construction.Unfolding
/-!
Determinization and complement.  The states of the determinized automaton stand for the sets of
states in which the automaton may be after reading a word.
-/

namespace FiniteState

universe u

variable {L : Type u} [Label L]

namespace Automaton

/-- The graph of the sets of states that reading leads to.  The empty set is left out, unless the
automaton has no initial state. -/
def subsets (A : Automaton L) : Graph L StateSet :=
  let start := A.start
  let letters := A.alphabet.toList
  { starts := [start]
    moves := fun S => letters.filterMap fun l =>
      let T := A.advance S l
      if T.isEmpty then none else some (some l, T)
    initial := fun S => S == start
    terminal := A.meetsTerminal
    bound := Nat.pow 2 A.size }

/-- A deterministic automaton for the same language.  It is not complete in general. -/
def determinize (A : Automaton L) : Automaton L :=
  A.subsets.automaton

/-- Whether some state has no transition on some of the letters. -/
def lacksTransition (A : Automaton L) (letters : OrderedSet L) : Bool :=
  A.states.any fun p => letters.toList.any fun l => (A.successors p (some l)).isEmpty

/-- The automaton that accepts a word over `letters` exactly if `A` does not.  It is determinized,
missing transitions lead to a new last state that is never left, and the terminal states are
exchanged with the others. -/
def complementOver (A : Automaton L) (letters : OrderedSet L) : Automaton L :=
  let D := A.determinize
  let sink := if D.lacksTransition letters then [D.size] else []
  ofParts
    (D.flags.map (fun f => { f with terminal := !f.terminal }) ++
      sink.map fun _ => ⟨false, true⟩)
    (D.states.flatMap (fun p => letters.toList.map fun l =>
        ⟨p, some l, ((D.successors p (some l)).head?).getD D.size⟩) ++
      sink.flatMap fun s => letters.toList.map fun l => ⟨s, some l, s⟩)

/-- The complement among the words over the alphabet of the automaton. -/
def complement (A : Automaton L) : Automaton L :=
  A.complementOver A.alphabet

end Automaton

end FiniteState
