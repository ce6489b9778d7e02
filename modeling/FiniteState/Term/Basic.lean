import FiniteState.Construction.Product
import FiniteState.Construction.Quotient
import FiniteState.Construction.Regular
import FiniteState.Construction.Removal
/-!
Terms of the expression syntax, and their automata.  Terms have more operators than regular
expressions; the automaton of a compound term is brought into canonical form at every step, which
keeps it small.
-/

namespace FiniteState

universe u

/-- What the text of an expression means. -/
inductive Term (L : Type u) where
  | zero
  | one
  | letter (l : L)
  | union (left right : Term L)
  | mix (left right : Term L)
  | shuffle (left right : Term L)
  | concatenation (left right : Term L)
  | star (body : Term L)
  | plus (body : Term L)
  | power (body : Term L) (times : Nat)
deriving DecidableEq, Repr

variable {L : Type u} [Label L]

/-- The canonical form of an automaton: without silent transitions, useless states and states that
cannot be told apart. -/
def Automaton.canonical (A : Automaton L) : Automaton L :=
  A.removeEpsilon.trim.reduce

def Term.automaton : Term L → Automaton L
  | zero => Automaton.zero.canonical
  | one => .one
  | letter l => .letter l
  | union left right => (left.automaton.union right.automaton).canonical
  | mix left right => (left.automaton.mix right.automaton).canonical
  | shuffle left right => (left.automaton.shuffle right.automaton).canonical
  | concatenation left right => (left.automaton.concatenation right.automaton).canonical
  | star body => body.automaton.star.canonical
  | plus body => body.automaton.plus.canonical
  | power body times => (body.automaton.power times).canonical

end FiniteState
