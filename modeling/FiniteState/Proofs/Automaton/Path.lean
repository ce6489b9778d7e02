import FiniteState.Automaton.Growth
import FiniteState.Proofs.Automaton.Intact
import FiniteState.Proofs.Automaton.Parts
/-!
Changing an automaton and writing it down by names never takes a state away, and the state that is
given back is one of the automaton after the change.
-/

namespace FiniteState

universe u

variable {L : Type u} [Label L]

namespace Automaton

variable {A : Automaton L} {p : Nat} {name : String}

@[simp] theorem size_mark (f : Flags → Flags) : (A.mark p f).size = A.size :=
  Array.size_modify

theorem size_le_named : A.size ≤ (A.named name).2.size := by
  unfold named
  split
  · exact Nat.le_refl _
  · exact Nat.le_of_lt (A.lt_size_addState false false)

theorem named_lt : (A.named name).1 < (A.named name).2.size := by
  unfold named
  split
  · rename_i hname
    exact lt_size_of_stateNamed? hname
  · exact A.lt_size_addState false false

/-- Only new names are given, and only to new states, so no name is lost. -/
theorem names_named_of_new (hname : A.stateNamed? name = none) :
    (A.named name).2.names = (name, A.size) :: A.names := by
  have hnew (entry : String × Nat) (hentry : entry ∈ A.names) :
      (entry.1 != name && entry.2 != A.size) = true := by
    rw [Bool.and_eq_true, bne_iff_ne, bne_iff_ne]
    refine ⟨?_, Nat.ne_of_lt (A.wellFormed.names_lt entry hentry)⟩
    rintro rfl
    exact Option.some_ne_none _ ((stateNamed?_eq_some_iff.mpr hentry).symm.trans hname)
  rw [named, hname]
  exact congrArg ((name, A.size) :: ·) (List.filter_eq_self.mpr hnew)

theorem size_le_pathFrom (steps : List (Option L × String)) :
    A.size ≤ (A.pathFrom p steps).2.size := by
  induction steps generalizing A p with
  | nil => exact Nat.le_refl _
  | cons s rest ih =>
      calc A.size ≤ (A.named s.2).2.size := size_le_named
        _ = ((A.named s.2).2.connect ⟨p, s.1, (A.named s.2).1⟩).size := (size_connect _ _).symm
        _ ≤ _ := ih

theorem pathFrom_lt (hp : p < A.size) (steps : List (Option L × String)) :
    (A.pathFrom p steps).1 < (A.pathFrom p steps).2.size := by
  induction steps generalizing A p with
  | nil => exact hp
  | cons s rest ih =>
      refine ih ?_
      rw [size_connect]
      exact named_lt

theorem size_le_path (steps : List (Option L × String)) : A.size ≤ (A.path name steps).2.size :=
  Nat.le_trans size_le_named (size_le_pathFrom steps)

theorem path_lt (steps : List (Option L × String)) :
    (A.path name steps).1 < (A.path name steps).2.size :=
  pathFrom_lt named_lt steps

end Automaton

end FiniteState
