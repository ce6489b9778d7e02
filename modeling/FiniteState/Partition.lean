import FiniteState.OrderedSet
/-!
Partitions of a collection into classes.  A class is known by its position, and two partitions are
compared without regard to the positions of their classes.
-/

namespace FiniteState

universe u

/-- A list of classes.  The classes are kept as they were given, even if some of them are empty or
overlap. -/
structure Partition (α : Type u) [Ordered α] where
  classes : List (OrderedSet α)

namespace Partition

variable {α : Type u} [Ordered α]

def ofClasses (classes : List (List α)) : Partition α :=
  ⟨classes.map OrderedSet.ofList⟩

/-- Group the elements by the class numbers assigned to them.  The classes are in the order of
their numbers, numbers that are not used leave no gap, and the longer list is cut off. -/
def ofAssignment (elements : List α) (numbers : List Nat) : Partition α :=
  let assigned := elements.zip numbers
  ⟨(OrderedSet.ofList (assigned.map Prod.snd)).toList.map fun number =>
    OrderedSet.ofList ((assigned.filter fun pair => pair.2 == number).map Prod.fst)⟩

def size (p : Partition α) : Nat :=
  p.classes.length

/-- The position of the first class that has the element as a member. -/
def classOf? (p : Partition α) (a : α) : Option Nat :=
  p.classes.findIdx? fun c => c.contains a

/-- Two partitions are taken as equal if they have the same number of classes and every class of
the left one is a class of the right one. -/
instance [DecidableEq α] : BEq (Partition α) :=
  ⟨fun p q => p.size == q.size && p.classes.all fun c => decide (c ∈ q.classes)⟩

end Partition

end FiniteState
