import FiniteState.Construction.Regular
/-!
Regular expressions.  Besides the plain constructors there are simplifying ones, which apply the
laws for nothing and for the empty word at once, so that what is built with them stays small.
-/

namespace FiniteState

universe u

/-- A regular expression over the labels `L`. -/
inductive Expression (L : Type u) where
  /-- Nothing is accepted. -/
  | zero
  /-- Only the empty word is accepted. -/
  | one
  | letter (l : L)
  | sum (left right : Expression L)
  | product (left right : Expression L)
  | iteration (body : Expression L)
deriving DecidableEq, Repr

namespace Expression

variable {L : Type u}

section Simplify

variable [DecidableEq L]

/-- The union of two expressions.  Nothing is neutral, and an expression joined with itself stays as
it is. -/
def add : Expression L → Expression L → Expression L
  | zero, e => e
  | e, zero => e
  | left, right => if left = right then left else sum left right

/-- One expression after the other.  The empty word is neutral, and nothing absorbs. -/
def mul : Expression L → Expression L → Expression L
  | zero, _ => zero
  | _, zero => zero
  | one, e => e
  | e, one => e
  | left, right => product left right

/-- Any number of repetitions.  Repeating nothing or the empty word gives the empty word, and
repeating a repetition changes nothing. -/
def star : Expression L → Expression L
  | zero => one
  | one => one
  | iteration e => iteration e
  | e => iteration e

@[simp] protected theorem zero_add (e : Expression L) : zero.add e = e := by
  cases e <;> rfl

@[simp] protected theorem add_zero (e : Expression L) : e.add zero = e := by
  cases e <;> rfl

omit [DecidableEq L] in
@[simp] protected theorem zero_mul (e : Expression L) : zero.mul e = zero := by
  cases e <;> rfl

omit [DecidableEq L] in
@[simp] protected theorem mul_zero (e : Expression L) : e.mul zero = zero := by
  cases e <;> rfl

omit [DecidableEq L] in
@[simp] protected theorem one_mul (e : Expression L) : one.mul e = e := by
  cases e <;> rfl

omit [DecidableEq L] in
@[simp] protected theorem mul_one (e : Expression L) : e.mul one = e := by
  cases e <;> rfl

end Simplify

/-- The letters that occur, from left to right. -/
def letters : Expression L → List L
  | zero => []
  | one => []
  | letter l => [l]
  | sum left right => left.letters ++ right.letters
  | product left right => left.letters ++ right.letters
  | iteration body => body.letters

/-- An automaton for the expression, built by the regular operations. -/
def automaton [Label L] : Expression L → Automaton L
  | zero => .zero
  | one => .one
  | letter l => .letter l
  | sum left right => left.automaton.union right.automaton
  | product left right => left.automaton.concatenation right.automaton
  | iteration body => body.automaton.star

end Expression

end FiniteState
