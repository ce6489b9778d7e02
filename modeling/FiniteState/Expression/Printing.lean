import FiniteState.Expression.Basic
/-!
The text of a regular expression, with as few parentheses as the strength of the operators allows.
Letters are written as they are shown.
-/

namespace FiniteState

universe u

variable {L : Type u} [Shown L]

namespace Expression

/-- The strength of an operator.  An operand that is weaker than its place demands is put into
parentheses. -/
inductive Strength where
  | sum
  | product
  | iteration
  | atom
deriving DecidableEq, Repr

def Strength.level : Strength → Nat
  | sum => 0
  | product => 1
  | iteration => 2
  | atom => 3

/-- Put a text of strength `own` into a place that demands `least`. -/
def enclose (least own : Strength) (text : String) : String :=
  if own.level < least.level then "(" ++ text ++ ")" else text

/-- The text of an expression in a place that demands `least`.  With `spaced`, the factors of a
product are separated by a space. -/
def textAt (spaced : Bool) : Strength → Expression L → String
  | _, zero => "0"
  | _, one => "1"
  | _, letter l => shown l
  | least, sum left right =>
      enclose least .sum (textAt spaced .sum left ++ "+" ++ textAt spaced .sum right)
  | least, product left right =>
      enclose least .product
        (textAt spaced .product left ++ (if spaced then " " else "") ++
          textAt spaced .product right)
  | least, iteration body =>
      enclose least .iteration (textAt spaced .atom body ++ "*")

/-- The text in which letters of one character stand side by side. -/
def text (e : Expression L) : String :=
  textAt false .sum e

/-- The text in which the factors of a product are separated by spaces. -/
def spacedText (e : Expression L) : String :=
  textAt true .sum e

end Expression

end FiniteState
