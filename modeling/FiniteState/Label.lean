import FiniteState.Ordered
import FiniteState.Text.Shown
/-!
Labels, the values that the moves of an automaton read.  Any ordered type with a text for each of
its values can serve; `Symbol` joins the three kinds that are used most.
-/

namespace FiniteState

universe u

/-- The type of the values that an automaton reads. -/
class Label (L : Type u) extends Ordered L, Shown L where
  decEq : DecidableEq L

instance {L : Type u} [Label L] : DecidableEq L := Label.decEq

/-- A label is a flag, a number or a text.  Flags come before numbers and numbers before texts. -/
inductive Symbol where
  | flag (value : Bool)
  | number (value : Nat)
  | text (value : String)
deriving DecidableEq, Repr

namespace Symbol

/-- Labels of one kind compare by their values, labels of different kinds by their kinds. -/
def compare : Symbol → Symbol → Ordering
  | flag a, flag b => order a b
  | flag _, _ => .lt
  | _, flag _ => .gt
  | number a, number b => order a b
  | number _, _ => .lt
  | _, number _ => .gt
  | text a, text b => order a b

instance : Ordered Symbol where
  order := compare
  order_eq_iff {a b} := by
    cases a <;> cases b <;> simp [compare]
  order_swap
    | flag _, flag _ => Ordered.order_swap _ _
    | number _, number _ => Ordered.order_swap _ _
    | text _, text _ => Ordered.order_swap _ _
    | flag _, number _ => rfl
    | flag _, text _ => rfl
    | number _, flag _ => rfl
    | number _, text _ => rfl
    | text _, flag _ => rfl
    | text _, number _ => rfl
  order_trans {a b c} := by
    cases a <;> cases b <;> cases c <;> simp [compare] <;> exact Ordered.order_trans

/-- A flag is shown as a sign, a number by its digits, a text as it is. -/
instance : Shown Symbol where
  shown
    | flag value => shown value
    | number value => shown value
    | text value => value

instance : Label Symbol where
  decEq := inferInstance

def ofChar (c : Char) : Symbol :=
  text c.toString

end Symbol

instance : Label Char where
  decEq := inferInstance

instance : Label String where
  decEq := inferInstance

instance : Label Nat where
  decEq := inferInstance

instance : Label Bool where
  decEq := inferInstance

end FiniteState
