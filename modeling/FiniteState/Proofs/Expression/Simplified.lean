import FiniteState.Proofs.Expression.Derivation
import FiniteState.Proofs.Expression.Elimination
/-!
Expressions built with the simplifying constructors.  Nothing and the empty word disappear from them
wherever a law allows it.  Elimination only builds such expressions, and since no factor is left
that starts with a number, their texts are read as they were printed.
-/

namespace FiniteState

universe u

variable {L : Type u}

namespace Expression

variable {e f : Expression L}

/-- No part is nothing, no factor is the empty word, no iteration repeats the empty word or another
iteration, and no sum has two equal operands. -/
def Reduced : Expression L → Prop
  | zero => False
  | one => True
  | letter _ => True
  | sum left right => left.Reduced ∧ right.Reduced ∧ left ≠ right
  | product left right => left.Reduced ∧ right.Reduced ∧ left ≠ one ∧ right ≠ one
  | iteration body => body.Reduced ∧ body ≠ one ∧ ∀ e, body ≠ iteration e

/-- Nothing, or an expression without superfluous parts. -/
def Simplified (e : Expression L) : Prop :=
  e = zero ∨ e.Reduced

section Constructors

theorem Reduced.ne_zero (h : e.Reduced) : e ≠ zero := by
  rintro rfl
  exact h

theorem Simplified.add [DecidableEq L] (he : e.Simplified) (hf : f.Simplified) :
    (e.add f).Simplified := by
  rcases he with rfl | he
  · rwa [Expression.zero_add]
  rcases hf with rfl | hf
  · rw [Expression.add_zero]
    exact Or.inr he
  have hadd : e.add f = if e = f then e else sum e f := by
    unfold Expression.add
    split
    · exact absurd rfl he.ne_zero
    · exact absurd rfl hf.ne_zero
    · rfl
  rw [hadd]
  split
  · exact Or.inr he
  · rename_i hne
    exact Or.inr ⟨he, hf, hne⟩

theorem Simplified.mul (he : e.Simplified) (hf : f.Simplified) : (e.mul f).Simplified := by
  rcases he with rfl | he
  · rw [Expression.zero_mul]
    exact Or.inl rfl
  rcases hf with rfl | hf
  · rw [Expression.mul_zero]
    exact Or.inl rfl
  by_cases heone : e = one
  · rw [heone, Expression.one_mul]
    exact Or.inr hf
  by_cases hfone : f = one
  · rw [hfone, Expression.mul_one]
    exact Or.inr he
  have hmul : e.mul f = product e f := by
    unfold Expression.mul
    split
    · exact absurd rfl he.ne_zero
    · exact absurd rfl hf.ne_zero
    · exact absurd rfl heone
    · exact absurd rfl hfone
    · rfl
  rw [hmul]
  exact Or.inr ⟨he, hf, heone, hfone⟩

theorem Simplified.star (he : e.Simplified) : e.star.Simplified := by
  unfold Expression.star
  split
  · exact Or.inr trivial
  · exact Or.inr trivial
  · exact he
  · rename_i hzero hone hiteration
    exact Or.inr ⟨he.resolve_left hzero, hone, hiteration⟩

end Constructors

section Numbers

theorem Reduced.isNumber_eq_false (h : e.Reduced) (hone : e ≠ one) : e.isNumber = false := by
  cases e with
  | zero => exact absurd h id
  | one => exact absurd rfl hone
  | _ => rfl

theorem Reduced.startsWithNumber_eq_false (h : e.Reduced) (hone : e ≠ one) :
    e.startsWithNumber = false := by
  induction e with
  | zero => exact absurd h id
  | one => exact absurd rfl hone
  | letter l => rfl
  | sum left right _ _ => rfl
  | product left right ihl _ => exact ihl h.1 h.2.2.1
  | iteration body _ => exact h.1.isNumber_eq_false h.2.1

theorem Reduced.numbersInFront (h : e.Reduced) : e.NumbersInFront := by
  induction e with
  | zero => exact trivial
  | one => exact trivial
  | letter l => exact trivial
  | sum left right ihl ihr => exact ⟨ihl h.1, ihr h.2.1⟩
  | product left right ihl ihr =>
      exact ⟨ihl h.1, ihr h.2.1, h.2.1.startsWithNumber_eq_false h.2.2.2⟩
  | iteration body ih => exact ih h.1

/-- A simplified expression has no factor that could be read as a repetition. -/
theorem Simplified.numbersInFront (h : e.Simplified) : e.NumbersInFront := by
  rcases h with rfl | h
  · exact trivial
  · exact h.numbersInFront

end Numbers

section Letters

theorem letters_add [DecidableEq L] {l : L} (hl : l ∈ (e.add f).letters) :
    l ∈ e.letters ∨ l ∈ f.letters := by
  unfold Expression.add at hl
  split at hl
  · exact Or.inr hl
  · exact Or.inl hl
  · split at hl
    · exact Or.inl hl
    · exact List.mem_append.mp hl

theorem letters_mul {l : L} (hl : l ∈ (e.mul f).letters) : l ∈ e.letters ∨ l ∈ f.letters := by
  unfold Expression.mul at hl
  split at hl
  · exact Or.inl hl
  · exact Or.inr hl
  · exact Or.inr hl
  · exact Or.inl hl
  · exact List.mem_append.mp hl

theorem letters_star {l : L} (hl : l ∈ e.star.letters) : l ∈ e.letters := by
  unfold Expression.star at hl
  split at hl <;> exact hl

end Letters

end Expression

section Table

variable [Label L]

/-- What the simplifying constructors keep. -/
structure Expression.Closed (good : Expression L → Prop) : Prop where
  zero : good .zero
  add : ∀ e f, good e → good f → good (e.add f)
  mul : ∀ e f, good e → good f → good (e.mul f)
  star : ∀ e, good e → good e.star

theorem Expression.closed_simplified : Expression.Closed (Simplified (L := L)) where
  zero := Or.inl rfl
  add _ _ := .add
  mul _ _ := .mul
  star _ := .star

theorem Expression.closed_letters (good : L → Prop) :
    Expression.Closed fun e => ∀ l ∈ e.letters, good l where
  zero _ hl := absurd hl List.not_mem_nil
  add _ _ he hf l hl := (letters_add hl).elim (he l) (hf l)
  mul _ _ he hf l hl := (letters_mul hl).elim (he l) (hf l)
  star _ he l hl := he l (letters_star hl)

variable {A : Automaton L} {e : Expression L} {good : Expression L → Prop}

namespace EdgeTable

variable {table : EdgeTable L} {n : Nat}

theorem forall_entry_eliminate (hgood : Expression.Closed good) (h : table.Square n)
    (hentry : ∀ p r, good (table.entry p r)) (q p r : Nat) :
    good ((table.eliminate q).entry p r) := by
  by_cases hq : p = q ∨ r = q
  · rw [entry_eliminate_self h hq]
    exact hgood.zero
  · obtain ⟨hpq, hrq⟩ := not_or.mp hq
    rw [entry_eliminate h hpq hrq]
    have hloop := hgood.mul _ _ (hentry p q) (hgood.star _ (hentry q q))
    exact hgood.add _ _ (hentry p r) (hgood.mul _ _ hloop (hentry q r))

theorem forall_entry_foldl_eliminate (hgood : Expression.Closed good) (h : table.Square n)
    (hentry : ∀ p r, good (table.entry p r)) (states : List Nat) (p r : Nat) :
    good ((states.foldl eliminate table).entry p r) := by
  induction states generalizing table with
  | nil => exact hentry p r
  | cons q states ih =>
      exact ih (h.eliminate q) (forall_entry_eliminate hgood h hentry q)

theorem good_addLabels (hgood : Expression.Closed good) (he : good e) {labels : List (Option L)}
    (hlabels : ∀ l ∈ labels, good (ofLabel l)) : good (addLabels e labels) := by
  induction labels generalizing e with
  | nil => exact he
  | cons l labels ih =>
      obtain ⟨hl, hlabels⟩ := List.forall_mem_cons.mp hlabels
      exact ih (hgood.add _ _ he hl) hlabels

end EdgeTable

namespace Automaton

/-- What the constructors keep and every move has, the expression of an automaton has as well. -/
theorem good_of_expression_eq (hgood : Expression.Closed good)
    (hmoves : ∀ p l q, A.Moves p l q → good (EdgeTable.ofLabel l)) (h : A.expression = .ok e) :
    good e := by
  unfold expression at h
  split at h
  · cases h
  · cases h
    refine EdgeTable.forall_entry_foldl_eliminate hgood (EdgeTable.square_ofAutomaton A) ?_ _ _ _
    intro p r
    rw [EdgeTable.entry_ofAutomaton]
    exact EdgeTable.good_addLabels hgood hgood.zero fun l hl =>
      hmoves p l r (EdgeTable.mem_labelsBetween.mp hl)

/-- Elimination gives a simplified expression. -/
theorem simplified_of_expression_eq (h : A.expression = .ok e) : e.Simplified := by
  refine good_of_expression_eq Expression.closed_simplified ?_ h
  intro p l q _
  cases l with
  | none => exact Or.inr trivial
  | some l => exact Or.inr trivial

theorem mem_alphabet_of_mem_letters (h : A.expression = .ok e) :
    ∀ l ∈ e.letters, l ∈ A.alphabet := by
  refine good_of_expression_eq (Expression.closed_letters fun l => l ∈ A.alphabet) ?_ h
  intro p l q hmove a ha
  cases l with
  | none => exact absurd ha List.not_mem_nil
  | some l =>
      obtain rfl := List.mem_singleton.mp ha
      exact mem_alphabet.mpr ⟨p, q, hmove⟩

end Automaton

end Table

end FiniteState
