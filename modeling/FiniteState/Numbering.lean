import FiniteState.Ordered
import Std.Data.TreeMap.Basic
/-!
Numbers for the values of a list, counted from zero: their positions if the list has no repetitions,
or the order of their first occurrences.
-/

namespace FiniteState

universe u

variable {α : Type u} [Ordered α]

/-- The position of every member of a list without repetitions. -/
def positions (values : List α) : Std.TreeMap α Nat order :=
  values.zipIdx.foldl (fun known entry => known.insert entry.1 entry.2) ∅

/-- Number the values of a list, where some values have numbers already.  A value without one gets
the next number. -/
def numberFrom (known : Std.TreeMap α Nat order) : List α → List Nat
  | [] => []
  | value :: rest =>
      match known[value]? with
      | some number => number :: numberFrom known rest
      | none => known.size :: numberFrom (known.insert value known.size) rest

/-- Number the values of a list by the order of their first occurrences. -/
def numberByFirst (values : List α) : List Nat :=
  numberFrom ∅ values

end FiniteState
