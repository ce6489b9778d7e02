import FiniteState.Ordered
import Std.Data.ExtTreeSet.Lemmas
/-!
Finite sets that are searched more often than they are listed.  They are kept as balanced trees, so
looking up a value takes few comparisons, and sets with the same members are equal, however they
came about.
-/

namespace FiniteState

universe u

/-- A finite set for quick searching. -/
abbrev LookupSet (α : Type u) [Ordered α] :=
  Std.ExtTreeSet α order

namespace LookupSet

variable {α : Type u} [Ordered α]

theorem mem_insert_iff {known : LookupSet α} {a b : α} :
    b ∈ known.insert a ↔ b = a ∨ b ∈ known := by
  rw [Std.ExtTreeSet.mem_insert, Ordered.order_eq_iff, eq_comm]

theorem mem_erase_iff {known : LookupSet α} {a b : α} :
    b ∈ known.erase a ↔ b ≠ a ∧ b ∈ known := by
  rw [Std.ExtTreeSet.mem_erase, ne_eq, Ordered.order_eq_iff, eq_comm]

def ofList (values : List α) : LookupSet α :=
  values.foldl (fun known a => known.insert a) ∅

/-- The members of a set that do not occur in a list. -/
def eraseAll (known : LookupSet α) (values : List α) : LookupSet α :=
  values.foldl (fun known a => known.erase a) known

theorem mem_foldl_insert {known : LookupSet α} {values : List α} {b : α} :
    b ∈ values.foldl (fun known a => known.insert a) known ↔ b ∈ values ∨ b ∈ known := by
  induction values generalizing known with
  | nil => simp
  | cons a rest ih =>
      rw [List.foldl_cons, ih, mem_insert_iff, List.mem_cons]
      exact or_left_comm.trans or_assoc.symm

@[simp] theorem mem_ofList {values : List α} {b : α} : b ∈ ofList values ↔ b ∈ values := by
  rw [ofList, mem_foldl_insert]
  simp

@[simp] theorem mem_eraseAll {known : LookupSet α} {values : List α} {b : α} :
    b ∈ known.eraseAll values ↔ b ∈ known ∧ b ∉ values := by
  induction values generalizing known with
  | nil => simp [eraseAll]
  | cons a rest ih =>
      rw [eraseAll, List.foldl_cons, ← eraseAll, ih, mem_erase_iff, List.mem_cons, not_or,
        and_comm (a := b ≠ a), and_assoc]

end LookupSet

end FiniteState
