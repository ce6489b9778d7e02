import FiniteState.Proofs.Construction.Normal
import FiniteState.Proofs.Expression.Elimination
/-!
Elimination gives an expression for the language of every normal automaton.  When only the first
and the last state are left, their entry denotes what leads from the one to the other through all
other states, and that is every run between them.
-/

namespace FiniteState

universe u

variable {L : Type u} [Label L]

namespace Automaton

variable {A : Automaton L} {i t p : Nat} {e : Expression L} {w : List L}

/-- Every run to the last state of a normal automaton passes only states other than its first and
its last one. -/
theorem Normal.passes_of_run (h : A.Normal i t) {through : Set Nat}
    (hthrough : ∀ q < A.size, q ≠ i → q ≠ t → q ∈ through) (hp : p ≠ t) (hrun : Run A.Moves p w t) :
    A.Passes through p w t := by
  generalize ht : t = r at hrun
  induction hrun using Run.inductionOnMoves with
  | done r => exact absurd ht.symm hp
  | step p q r l w hmove hrest ih =>
      subst ht
      by_cases hq : q = t
      · subst hq
        have hw : w = [] := by
          cases hrest with
          | done _ => rfl
          | silent hmove _ => exact absurd hmove (h.not_left _ _)
          | read hmove _ => exact absurd hmove (h.not_left _ _)
        subst hw
        rw [List.append_nil]
        exact .move hmove
      · have hqi : q ≠ i := fun hqi => h.not_entered p l (hqi ▸ hmove)
        exact .pass hmove (hthrough q hmove.target_lt hqi hq) (ih hq rfl)

/-- Through all other states lead exactly the accepted words. -/
theorem Normal.passing_eq (h : A.Normal i t) {through : Set Nat}
    (hthrough : ∀ q < A.size, q ≠ i → q ≠ t → q ∈ through) :
    A.passing through i t = A.language := by
  ext w
  rw [h.mem_language_iff]
  exact ⟨Passes.run, h.passes_of_run hthrough h.ne⟩

/-- An expression that is found denotes the language of the automaton. -/
theorem language_of_expression_eq (h : A.expression = .ok e) : e.language = A.language := by
  unfold expression at h
  split at h
  · cases h
  · rename_i i t hendpoints
    have hnormal := endpoints_eq_ok_iff.mp hendpoints
    cases h
    have hinner (q : Nat) :
        q ∈ A.states.filter (fun q => q != i && q != t) ↔ q < A.size ∧ q ≠ i ∧ q ≠ t := by
      simp
    have htable := (EdgeTable.represents_ofAutomaton A).foldl_eliminate
      (fun q hq => ⟨((hinner q).mp hq).1, Set.notMem_empty q⟩) (List.nodup_range.filter _)
    have hi : i < A.size := lt_size_of_isInitial ((hnormal.isInitial_iff i).mpr rfl)
    have ht : t < A.size := lt_size_of_isTerminal ((hnormal.isTerminal_iff t).mpr rfl)
    rw [htable.language_entry i hi t ht (by simp) (by simp)]
    exact hnormal.passing_eq fun q hq hqi hqt => Or.inr ((hinner q).mpr ⟨hq, hqi, hqt⟩)

/-- Every normal automaton has an expression. -/
theorem Normal.exists_expression (h : A.Normal i t) : ∃ e, A.expression = .ok e := by
  rw [expression, endpoints_eq_ok_iff.mpr h]
  exact ⟨_, rfl⟩

end Automaton

/-- State elimination is exact: after normalization every automaton has an expression, and
whenever an automaton has one, the expression and its automaton describe the language of the
automaton. -/
theorem elimination_is_exact (A : Automaton L) :
    (∃ e, A.normalize.expression = .ok e ∧ ∀ w, e.automaton.accepts w = A.accepts w) ∧
      ∀ e, A.expression = .ok e →
        e.language = A.language ∧ ∀ w, e.automaton.accepts w = A.accepts w := by
  have haccepts {B : Automaton L} {e : Expression L} (h : e.language = B.language) (w : List L) :
      e.automaton.accepts w = B.accepts w := by
    rw [Bool.eq_iff_iff, Automaton.accepts_iff_mem_language, Automaton.accepts_iff_mem_language,
      e.language_automaton, h]
  constructor
  · obtain ⟨e, he⟩ := A.normal_normalize.exists_expression
    have hlanguage := Automaton.language_of_expression_eq he
    rw [A.language_normalize] at hlanguage
    exact ⟨e, he, haccepts hlanguage⟩
  · intro e he
    have hlanguage := Automaton.language_of_expression_eq he
    exact ⟨hlanguage, haccepts hlanguage⟩

/-- The automaton that reads `a`, loops on `b` and then stops silently. -/
def loopSample : Automaton Char :=
  .ofParts [⟨true, false⟩, ⟨false, false⟩, ⟨false, true⟩]
    [⟨0, some 'a', 1⟩, ⟨1, some 'b', 1⟩, ⟨1, none, 2⟩]

/-- Eliminating the state with the loop gives `ab*`. -/
theorem elimination_is_exact_on_loopSample :
    loopSample.expression = .ok (.product (.letter 'a') (.iteration (.letter 'b'))) ∧
      (Expression.product (.letter 'a') (.iteration (.letter 'b'))).language =
        loopSample.language ∧
      ∀ w, (Expression.product (.letter 'a') (.iteration (.letter 'b'))).automaton.accepts w =
        loopSample.accepts w :=
  ⟨rfl, (elimination_is_exact loopSample).2 _ rfl⟩

end FiniteState
