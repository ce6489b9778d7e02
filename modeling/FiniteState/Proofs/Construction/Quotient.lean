import FiniteState.Proofs.Automaton.Parts
import FiniteState.Proofs.Automaton.Useful
import FiniteState.Proofs.Construction.Refinement
/-!
Merging the states of every stable class.  A class accepts what each of its members accepts, so the
language stays the same, and useful states make up useful classes.
-/

namespace FiniteState

universe u

variable {L : Type u} [Label L]

namespace Automaton

variable {A : Automaton L} {p q x y : Nat} {l : Option L} {w : List L}

def classOf (A : Automaton L) (p : Nat) : Nat :=
  A.refine.getD p 0

section States

theorem lt_foldl_max {values : List Nat} {n c : Nat} :
    c < values.foldl (fun n d => max n (d + 1)) n ↔ c < n ∨ ∃ d ∈ values, c ≤ d := by
  induction values generalizing n with
  | nil => simp
  | cons d rest ih =>
      rw [List.foldl_cons, ih, lt_max_iff, Nat.lt_succ_iff, or_assoc]
      simp

theorem classOf_eq : A.classOf p = (A.classify (A.signature A.refine)).getD p 0 := by
  rw [classOf, ← refine_eq_classify]

theorem lt_size_reduce {c : Nat} : c < A.reduce.size ↔ ∃ p < A.size, A.classOf p = c := by
  have hsize : A.reduce.size = A.refine.toList.foldl (fun n d => max n (d + 1)) 0 := by
    rw [reduce, mergeBy, size_ofParts, List.length_map, List.length_range, Array.foldl_toList]
  rw [hsize, lt_foldl_max]
  constructor
  · intro h
    rcases h with hc | ⟨d, hd, hcd⟩
    · omega
    · obtain ⟨i, hi, rfl⟩ := List.mem_iff_getElem.mp hd
      rw [Array.length_toList, size_refine] at hi
      have hget : A.refine.toList[i] = A.classOf i := by
        simp [classOf, Array.getD_eq_getD_getElem?, size_refine, hi]
      rw [hget, classOf_eq] at hcd
      obtain ⟨p, hp, heq⟩ := exists_getD_classify (hcd.trans_lt (getD_classify_lt hi))
      exact ⟨p, hp, classOf_eq.trans heq⟩
  · intro h
    rcases h with ⟨p, hp, rfl⟩
    refine Or.inr ⟨A.classOf p, ?_, Nat.le_refl _⟩
    have hp' : p < A.refine.size := by rwa [size_refine]
    rw [classOf, Array.getD_eq_getD_getElem?, Array.getElem?_eq_getElem hp', Option.getD_some]
    exact Array.getElem_mem_toList hp'

theorem classOf_lt_size (hp : p < A.size) : A.classOf p < A.reduce.size :=
  lt_size_reduce.mpr ⟨p, hp, rfl⟩

theorem contains_classes {states : StateSet} :
    (LookupSet.ofList (states.toList.map fun p => A.refine.getD p 0)).contains x = true ↔
      ∃ p ∈ states, A.classOf p = x := by
  rw [Std.ExtTreeSet.contains_iff_mem, LookupSet.mem_ofList, List.mem_map]
  rfl

theorem isInitial_reduce :
    A.reduce.isInitial x = true ↔ ∃ p, A.isInitial p = true ∧ A.classOf p = x := by
  have hflag : A.reduce.isInitial x = true ↔
      x < A.reduce.size ∧ ∃ p ∈ A.initials, A.classOf p = x := by
    rw [reduce, mergeBy, isInitial_ofParts, any_map_range, contains_classes, size_ofParts,
      List.length_map, List.length_range]
  simp only [hflag, mem_initials]
  apply and_iff_right_of_imp
  intro h
  rcases h with ⟨p, hp, rfl⟩
  exact classOf_lt_size (lt_size_of_isInitial hp)

theorem isTerminal_reduce :
    A.reduce.isTerminal x = true ↔ ∃ p, A.isTerminal p = true ∧ A.classOf p = x := by
  have hflag : A.reduce.isTerminal x = true ↔
      x < A.reduce.size ∧ ∃ p ∈ A.terminals, A.classOf p = x := by
    rw [reduce, mergeBy, isTerminal_ofParts, any_map_range, contains_classes, size_ofParts,
      List.length_map, List.length_range]
  simp only [hflag, mem_terminals]
  apply and_iff_right_of_imp
  intro h
  rcases h with ⟨p, hp, rfl⟩
  exact classOf_lt_size (lt_size_of_isTerminal hp)

theorem moves_reduce :
    A.reduce.Moves x l y ↔ ∃ p q, A.Moves p l q ∧ A.classOf p = x ∧ A.classOf q = y := by
  have hiff : A.reduce.Moves x l y ↔
      ⟨x, l, y⟩ ∈ A.transitions.map (fun t =>
        (⟨A.classOf t.start, t.label, A.classOf t.target⟩ : Transition L)) ∧
          x < A.reduce.size ∧ y < A.reduce.size := by
    rw [reduce, mergeBy, moves_ofParts, size_ofParts]
    rfl
  rw [hiff, List.mem_map]
  constructor
  · intro h
    rcases h with ⟨⟨t, ht, heq⟩, -, -⟩
    simp only [Transition.mk.injEq] at heq
    exact ⟨t.start, t.target, heq.2.1 ▸ mem_transitions.mp ht, heq.1, heq.2.2⟩
  · intro h
    rcases h with ⟨p, q, hmove, rfl, rfl⟩
    exact ⟨⟨⟨p, l, q⟩, mem_transitions.mpr hmove, rfl⟩, classOf_lt_size hmove.start_lt,
      classOf_lt_size hmove.target_lt⟩

theorem isEpsilonFree_reduce (h : A.isEpsilonFree = true) : A.reduce.isEpsilonFree = true := by
  rw [isEpsilonFree_iff] at h ⊢
  intro x y hmove
  obtain ⟨p, q, hmove, -, -⟩ := moves_reduce.mp hmove
  exact h p q hmove

end States

section Language

theorem run_reduce (hrun : Run A.Moves p w q) :
    Run A.reduce.Moves (A.classOf p) w (A.classOf q) :=
  hrun.map A.classOf fun p _ q hmove => moves_reduce.mpr ⟨p, q, hmove, rfl, rfl⟩

theorem languageFrom_reduce (hp : p < A.size) :
    A.reduce.languageFrom (A.classOf p) = A.languageFrom p := by
  ext w
  constructor
  · refine mem_languageFrom_of_simulation (fun x p => p < A.size ∧ A.classOf p = x) ?_ ?_ ⟨hp, rfl⟩
    · intro _ p l y h hstep
      rcases h with ⟨hp, rfl⟩
      obtain ⟨p', q', hmove, hclass, rfl⟩ := moves_reduce.mp hstep
      obtain ⟨q, hanswer, heq⟩ := exists_moves_of_refine_eq hmove.start_lt hp hclass hmove
      exact ⟨q, hanswer, hanswer.target_lt, heq.symm⟩
    · intro _ p h hterm
      rcases h with ⟨hp, rfl⟩
      obtain ⟨p', hterm, hclass⟩ := isTerminal_reduce.mp hterm
      rwa [isTerminal_eq_of_refine_eq hp (lt_size_of_isTerminal hterm) hclass.symm]
  · intro h
    rcases h with ⟨q, hrun, hterm⟩
    exact ⟨A.classOf q, run_reduce hrun, isTerminal_reduce.mpr ⟨q, hterm, rfl⟩⟩

/-- Merging indistinguishable states keeps the language. -/
theorem language_reduce : A.reduce.language = A.language := by
  ext w
  constructor
  · intro h
    rcases h with ⟨x, hx, hw⟩
    obtain ⟨p, hp, rfl⟩ := isInitial_reduce.mp hx
    rw [languageFrom_reduce (lt_size_of_isInitial hp)] at hw
    exact ⟨p, hp, hw⟩
  · intro h
    rcases h with ⟨p, hp, hw⟩
    rw [← languageFrom_reduce (lt_size_of_isInitial hp)] at hw
    exact ⟨A.classOf p, isInitial_reduce.mpr ⟨p, hp, rfl⟩, hw⟩

theorem Trim.reduce (h : A.Trim) : A.reduce.Trim := by
  intro x hx
  obtain ⟨p, hp, rfl⟩ := lt_size_reduce.mp hx
  obtain ⟨⟨i, v, hi, hrun⟩, w, hw⟩ := mem_useful.mp (h p hp)
  have hinitial : A.reduce.isInitial (A.classOf i) = true := isInitial_reduce.mpr ⟨i, hi, rfl⟩
  refine mem_useful.mpr ⟨⟨A.classOf i, v, hinitial, run_reduce hrun⟩, w, ?_⟩
  rwa [languageFrom_reduce hp]

end Language

end Automaton

end FiniteState
