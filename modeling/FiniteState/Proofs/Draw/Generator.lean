import FiniteState.Draw.Generator
import Mathlib.Data.List.Basic
/-!
What random draws give, whatever words the source gives.  A number that is drawn below a bound lies
below it, and drawing one value for each member of a list gives what the single draws give.
-/

namespace FiniteState

universe u v w

namespace Draw

variable {σ : Type}

theorem high_lt (word : UInt64) {n : Nat} (hn : 0 < n) : word.toNat * n / UInt64.size < n := by
  apply Nat.div_lt_of_lt_mul
  exact Nat.mul_lt_mul_of_pos_right word.toNat_lt_size hn

section Range

variable (bits : Draw σ UInt64) (attempts : Nat)

theorem belowWithin_lt {n : Nat} (hn : 0 < n) (s : σ) : (belowWithin bits n attempts s).1 < n := by
  induction attempts generalizing s with
  | zero => exact hn
  | succ attempts ih =>
      dsimp only [belowWithin]
      split
      · exact ih _
      · exact high_lt _ hn

theorem below_lt {n : Nat} (hn : 0 < n) (s : σ) : (below bits attempts n s).1 < n := by
  dsimp only [below]
  split
  · rename_i hsize
    exact hsize ▸ (bits s).1.toNat_lt_size
  · exact belowWithin_lt bits attempts hn s

theorem between_mem_range {low high : Nat} (h : low ≤ high) (s : σ) :
    low ≤ (between bits attempts low high s).1 ∧ (between bits attempts low high s).1 ≤ high := by
  have hlt : (below bits attempts (high - low + 1) s).1 < high - low + 1 :=
    below_lt bits attempts (Nat.succ_pos _) s
  dsimp only [between]
  omega

theorem between_zero (high : Nat) :
    between bits attempts 0 high = below bits attempts (high + 1) := by
  funext s
  simp [between]

end Range

section ForEach

variable {α : Type u} {β : Type v} {γ : Type w} {draw : α → Draw σ β} {l : List α}

/-- What is drawn for every member is drawn for all of them. -/
theorem forall_mem_forEach {holds : β → Prop} (h : ∀ a ∈ l, ∀ s, holds (draw a s).1)
    (s : σ) : ∀ b ∈ (forEach draw l s).1, holds b := by
  induction l generalizing s with
  | nil => exact fun _ hb => absurd hb List.not_mem_nil
  | cons a rest ih =>
      obtain ⟨ha, hrest⟩ := List.forall_mem_cons.mp h
      exact List.forall_mem_cons.mpr ⟨ha s, ih hrest (draw a s).2⟩

/-- What a draw for a member has in common with the member is in the same places. -/
theorem map_forEach {f : β → γ} {k : α → γ} (h : ∀ a s, f (draw a s).1 = k a) (s : σ) :
    (forEach draw l s).1.map f = l.map k := by
  induction l generalizing s with
  | nil => rfl
  | cons a rest ih => exact congrArg₂ List.cons (h a s) (ih (draw a s).2)

theorem length_forEach (s : σ) : (forEach draw l s).1.length = l.length := by
  simpa using congrArg List.length (map_forEach (f := fun _ => ()) (fun _ _ => rfl) s)

end ForEach

end Draw

end FiniteState
