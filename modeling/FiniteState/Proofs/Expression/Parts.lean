import FiniteState.Proofs.Expression.Kleene
import FiniteState.Proofs.Expression.Simplified
/-!
What elimination leaves out.  A reduced expression consists of reduced parts, and each of them
denotes some word; so nothing is only left where the automaton accepts no word, and then nothing is
all that is left.
-/

namespace FiniteState

universe u

variable {L : Type u}

namespace Expression

variable {e f : Expression L}

/-- The first expression occurs in the second one, or is the second one. -/
inductive PartOf (f : Expression L) : Expression L → Prop where
  | whole : PartOf f f
  | sumLeft {left right : Expression L} : PartOf f left → PartOf f (sum left right)
  | sumRight {left right : Expression L} : PartOf f right → PartOf f (sum left right)
  | productLeft {left right : Expression L} : PartOf f left → PartOf f (product left right)
  | productRight {left right : Expression L} : PartOf f right → PartOf f (product left right)
  | body {body : Expression L} : PartOf f body → PartOf f (iteration body)

theorem Reduced.of_partOf (h : e.Reduced) (hf : f.PartOf e) : f.Reduced := by
  induction hf with
  | whole => exact h
  | sumLeft _ ih => exact ih h.1
  | sumRight _ ih => exact ih h.2.1
  | productLeft _ ih => exact ih h.1
  | productRight _ ih => exact ih h.2.1
  | body _ ih => exact ih h.1

theorem Reduced.exists_mem_language (h : e.Reduced) : ∃ w, w ∈ e.language := by
  induction e with
  | zero => exact absurd h id
  | one => exact ⟨[], rfl⟩
  | letter l => exact ⟨[l], rfl⟩
  | sum left right ihl _ =>
      obtain ⟨w, hw⟩ := ihl h.1
      exact ⟨w, Or.inl hw⟩
  | product left right ihl ihr =>
      obtain ⟨v, hv⟩ := ihl h.1
      obtain ⟨w, hw⟩ := ihr h.2.1
      exact ⟨v ++ w, Language.append_mem_mul hv hw⟩
  | iteration body _ => exact ⟨[], Language.nil_mem_kstar _⟩

theorem Simplified.eq_zero_iff (h : e.Simplified) : e = zero ↔ ∀ w, w ∉ e.language := by
  constructor
  · rintro rfl
    exact Language.notMem_zero
  · intro hnone
    apply h.resolve_right
    intro hreduced
    obtain ⟨w, hw⟩ := hreduced.exists_mem_language
    exact hnone w hw

end Expression

/-- Eliminated expressions are simplified: unless all is nothing, no part is nothing, no factor is
the empty word, no iteration repeats the empty word or another iteration, and no sum has equal
operands.  All is nothing exactly if the automaton accepts no word. -/
theorem eliminated_expressions_are_simplified [Label L] {A : Automaton L} {e : Expression L}
    (h : A.expression = .ok e) :
    (e = .zero ∨ ∀ f, Expression.PartOf f e →
      f ≠ .zero ∧
      (∀ left right, f = .product left right → left ≠ .one ∧ right ≠ .one) ∧
      (∀ body, f = .iteration body → body ≠ .one ∧ ∀ inner, body ≠ .iteration inner) ∧
      (∀ left right, f = .sum left right → left ≠ right)) ∧
    (e = .zero ↔ ∀ w, A.accepts w = false) := by
  have hsimplified := Automaton.simplified_of_expression_eq h
  constructor
  · refine hsimplified.imp_right fun hreduced f hf => ?_
    have hpart := hreduced.of_partOf hf
    refine ⟨hpart.ne_zero, ?_, ?_, ?_⟩
    · rintro left right rfl
      exact hpart.2.2
    · rintro body rfl
      exact hpart.2
    · rintro left right rfl
      exact hpart.2.2
  · rw [hsimplified.eq_zero_iff, Automaton.language_of_expression_eq h]
    apply forall_congr'
    intro w
    rw [← Automaton.accepts_iff_mem_language, Bool.not_eq_true]

/-- Two ways that are entered silently, and either of them loops on `a` and is left on `b`. -/
def twinLoops : Automaton Char :=
  .ofParts [⟨true, false⟩, ⟨false, false⟩, ⟨false, false⟩, ⟨false, true⟩]
    [⟨0, none, 1⟩, ⟨0, none, 2⟩, ⟨1, some 'a', 1⟩, ⟨2, some 'a', 2⟩, ⟨1, some 'b', 3⟩,
      ⟨2, some 'b', 3⟩]

/-- The two ways have the same expression, which is not joined with itself, and the silent moves in
front of them are no factors: what is left is `a*b`. -/
theorem twinLoops_simplified :
    twinLoops.expression = .ok (.product (.iteration (.letter 'a')) (.letter 'b')) ∧
    (Expression.product (.iteration (.letter 'a')) (.letter 'b') = .zero ∨
      ∀ f, Expression.PartOf f (.product (.iteration (.letter 'a')) (.letter 'b')) →
        f ≠ .zero ∧
        (∀ left right, f = .product left right → left ≠ .one ∧ right ≠ .one) ∧
        (∀ body, f = .iteration body → body ≠ .one ∧ ∀ inner, body ≠ .iteration inner) ∧
        (∀ left right, f = .sum left right → left ≠ right)) ∧
    (Expression.product (.iteration (.letter 'a')) (.letter 'b') = .zero ↔
      ∀ w, twinLoops.accepts w = false) :=
  ⟨rfl, eliminated_expressions_are_simplified rfl⟩

end FiniteState
