import FiniteState.Proofs.Automaton.Language
import Mathlib.Data.Set.Insert
/-!
The words that lead from one state to another one through given states.  Allowing one more state in
between adds the ways that reach it, stay on it in loops and leave it again.
-/

namespace FiniteState

universe u

variable {L : Type u} [Label L]

namespace Automaton

variable {A : Automaton L} {through : Set Nat} {p q r : Nat} {u v w : List L}

/-- A run of at least one move that passes only the given states between its ends. -/
inductive Passes (A : Automaton L) (through : Set Nat) : Nat → List L → Nat → Prop where
  | move {p q : Nat} {l : Option L} : A.Moves p l q → Passes A through p l.toList q
  | pass {p q r : Nat} {l : Option L} {w : List L} : A.Moves p l q → q ∈ through →
      Passes A through q w r → Passes A through p (l.toList ++ w) r

/-- The words that lead from one state to another one through given states. -/
def passing (A : Automaton L) (through : Set Nat) (p q : Nat) : Language L :=
  { w | A.Passes through p w q }

namespace Passes

theorem run (h : A.Passes through p w q) : Run A.Moves p w q := by
  induction h with
  | move hmove => exact Run.single hmove
  | pass hmove _ _ ih => exact Run.step hmove ih

theorem mono {more : Set Nat} (hsub : through ⊆ more) (h : A.Passes through p w q) :
    A.Passes more p w q := by
  induction h with
  | move hmove => exact .move hmove
  | pass hmove hthrough _ ih => exact .pass hmove (hsub hthrough) ih

theorem append (hfirst : A.Passes through p v q) (hq : q ∈ through)
    (hrest : A.Passes through q w r) : A.Passes through p (v ++ w) r := by
  induction hfirst with
  | move hmove => exact .pass hmove hq hrest
  | pass hmove hthrough _ ih =>
      rw [List.append_assoc]
      exact .pass hmove hthrough (ih hq hrest)

/-- Loops on a state that may be passed, in front of what leads on from it. -/
theorem append_loops {loops : List (List L)} (hloops : ∀ v ∈ loops, A.Passes through q v q)
    (hq : q ∈ through) (hrest : A.Passes through q w r) :
    A.Passes through q (loops.flatten ++ w) r := by
  induction loops with
  | nil => exact hrest
  | cons v loops ih =>
      obtain ⟨hv, hloops⟩ := List.forall_mem_cons.mp hloops
      rw [List.flatten_cons, List.append_assoc]
      exact hv.append hq (ih hloops)

/-- A run through one more state either avoids it or splits at its visits of it. -/
theorem of_insert (h : A.Passes (insert q through) p w r) :
    w ∈ A.passing through p r +
      A.passing through p q * KStar.kstar (A.passing through q q) * A.passing through q r := by
  rw [Language.mem_add]
  induction h with
  | move hmove => exact Or.inl (.move hmove)
  | @pass p s r l w hmove hs _ ih =>
      rcases Set.mem_insert_iff.mp hs with rfl | hs
      · -- The first move reaches the additional state, and what follows starts with a loop on it.
        apply Or.inr
        rcases ih with hw | ⟨_, ⟨u, hu, v, hv, rfl⟩, z, hz, rfl⟩
        · exact ⟨_, ⟨_, .move hmove, [], Language.nil_mem_kstar _, rfl⟩, w, hw, by simp⟩
        · refine ⟨_, ⟨_, .move hmove, u ++ v, ?_, rfl⟩, z, hz, by simp⟩
          obtain ⟨loops, rfl, hloops⟩ := Language.mem_kstar.mp hv
          exact Language.mem_kstar.mpr ⟨u :: loops, rfl, List.forall_mem_cons.mpr ⟨hu, hloops⟩⟩
      · rcases ih with hw | ⟨_, ⟨u, hu, v, hv, rfl⟩, z, hz, rfl⟩
        · exact Or.inl (.pass hmove hs hw)
        · exact Or.inr ⟨_, ⟨_, .pass hmove hs hu, v, hv, rfl⟩, z, hz, by simp⟩

end Passes

/-- One more state to pass adds the ways around it. -/
theorem passing_insert (A : Automaton L) (through : Set Nat) (p q r : Nat) :
    A.passing (insert q through) p r = A.passing through p r +
      A.passing through p q * KStar.kstar (A.passing through q q) * A.passing through q r := by
  have hsub : through ⊆ insert q through := Set.subset_insert q through
  have hq : q ∈ insert q through := Set.mem_insert q through
  ext w
  constructor
  · exact Passes.of_insert
  · rw [Language.mem_add]
    intro h
    rcases h with hw | ⟨_, ⟨u, hu, v, hv, rfl⟩, z, hz, rfl⟩
    · exact hw.mono hsub
    · obtain ⟨loops, rfl, hloops⟩ := Language.mem_kstar.mp hv
      have hrest := Passes.append_loops (fun v hv => (hloops v hv).mono hsub) hq (hz.mono hsub)
      have hall := (hu.mono hsub).append hq hrest
      rw [← List.append_assoc] at hall
      exact hall

theorem mem_passing_empty : w ∈ A.passing ∅ p q ↔ ∃ l, A.Moves p l q ∧ w = l.toList := by
  constructor
  · intro h
    cases h with
    | move hmove => exact ⟨_, hmove, rfl⟩
    | pass _ hthrough _ => exact absurd hthrough (Set.notMem_empty _)
  · intro h
    rcases h with ⟨l, hmove, rfl⟩
    exact .move hmove

end Automaton

end FiniteState
