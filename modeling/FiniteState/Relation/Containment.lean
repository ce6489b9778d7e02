import FiniteState.Automaton.ShortestWord
import FiniteState.Construction.Determinization
import FiniteState.Construction.Product
import FiniteState.Construction.Removal
/-!
Checking an implementation against a specification: every word that the implementation accepts has
to be accepted by the specification.
-/

namespace FiniteState

universe u

variable {L : Type u} [Label L]

namespace Automaton

/-- The words over the alphabet of `A` that `A` accepts and the specification does not. -/
def violations (A specification : Automaton L) : Automaton L :=
  ((specification.complementOver A.alphabet).intersection A).trim

def counterexample? (A specification : Automaton L) : Option (Automaton L) :=
  let v := A.violations specification
  if v.isEmpty then none else some v

/-- Whether every word that `A` accepts is accepted by the specification. -/
def satisfies (A specification : Automaton L) : Bool :=
  (A.counterexample? specification).isNone

/-- A shortest violation. -/
def violation? (A specification : Automaton L) : Option (List L) :=
  (A.counterexample? specification).bind shortestWord?

end Automaton

end FiniteState
