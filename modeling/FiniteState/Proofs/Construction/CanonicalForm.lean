import FiniteState.Proofs.Construction.Minimization
import FiniteState.Proofs.Construction.Subsets
/-!
Minimal automata as canonical forms.  The states of a minimized automaton are numbered as a
breadth-first traversal of the left quotients of the language finds them, where the letters are
tried in their order.  The subset construction meets them in that order, although several sets of
states may stand for one of them, and trimming and reducing keep it.
-/

namespace FiniteState

universe u

variable {L : Type u}

open scoped Classical in
/-- What may follow after one letter, for the letters after which something may follow. -/
noncomputable def quotients (letters : List L) (R : Language L) : List (Language L) :=
  (letters.map fun l => R.leftQuotient [l]).filter fun Q => Q ≠ 0

theorem mem_quotients {letters : List L} {R Q : Language L} :
    Q ∈ quotients letters R ↔ (∃ l ∈ letters, R.leftQuotient [l] = Q) ∧ Q ≠ 0 := by
  simp only [quotients, List.mem_filter, List.mem_map, decide_eq_true_eq]

@[simp] theorem quotients_zero (letters : List L) : quotients letters 0 = [] := by
  apply List.eq_nil_iff_forall_not_mem.mpr
  intro Q hQ
  obtain ⟨⟨l, -, rfl⟩, hne⟩ := mem_quotients.mp hQ
  exact hne rfl

theorem quotients_eq_of_mem_iff [Label L] {s t : OrderedSet L} {R : Language L}
    (h : ∀ l w, l :: w ∈ R → (l ∈ s ↔ l ∈ t)) : quotients s.toList R = quotients t.toList R := by
  classical
  have hfilter (s : OrderedSet L) : quotients s.toList R =
      (s.filter fun l => R.leftQuotient [l] ≠ 0).toList.map fun l => R.leftQuotient [l] := by
    rw [quotients, List.filter_map]
    rfl
  rw [hfilter s, hfilter t]
  refine congrArg (fun s : OrderedSet L => s.toList.map _) (OrderedSet.eq_of_mem_iff fun l => ?_)
  rw [OrderedSet.mem_filter, OrderedSet.mem_filter, decide_eq_true_eq]
  apply and_congr_left
  intro hne
  obtain ⟨w, hw⟩ := Set.nonempty_iff_ne_empty.mpr hne
  exact h l w hw

theorem exists_leftQuotient_of_reachable {letters : List L} {K R : Language L}
    {starts : List (Language L)} (hstarts : ∀ Q ∈ starts, Q = K)
    (h : Traversal.Reachable (quotients letters) starts R) : ∃ v, K.leftQuotient v = R := by
  induction h with
  | start hR => exact ⟨[], (hstarts _ hR).symm⟩
  | step _ hQ ih =>
      obtain ⟨v, rfl⟩ := ih
      obtain ⟨⟨l, -, rfl⟩, -⟩ := mem_quotients.mp hQ
      exact ⟨v ++ [l], Language.leftQuotient_append K v [l]⟩

namespace Automaton

variable [Label L] {A B : Automaton L} {S : StateSet} {l : L}

section Subsets

theorem languageFrom_advance :
    A.subsets.languageFrom (A.advance S l) = (A.subsets.languageFrom S).leftQuotient [l] := by
  ext w
  change w ∈ A.subsets.languageFrom (A.advance S l) ↔ l :: w ∈ A.subsets.languageFrom S
  rw [mem_languageFrom_subsets, mem_languageFrom_subsets]
  rfl

theorem languageFrom_start : A.subsets.languageFrom A.start = A.language := by
  ext w
  rw [mem_languageFrom_subsets, ← accepts_iff_mem_language, accepts_eq]

theorem languageFrom_of_isEmpty (hS : S.isEmpty = true) : A.subsets.languageFrom S = 0 := by
  have hnone := OrderedSet.isEmpty_iff.mp hS
  apply Set.eq_empty_iff_forall_notMem.mpr
  intro w hw
  obtain ⟨q, hq, -⟩ := meetsTerminal_iff.mp (mem_languageFrom_subsets.mp hw)
  obtain ⟨p, hp, -⟩ := (mem_readFrom fun p hp => absurd hp (hnone p)).mp hq
  exact hnone p hp

theorem map_moves_subsets :
    (A.subsets.moves S).map Prod.snd =
      (A.alphabet.toList.map (A.advance S)).filter fun T => !T.isEmpty := by
  simp only [subsets]
  induction A.alphabet.toList with
  | nil => rfl
  | cons l rest ih =>
      rw [List.filterMap_cons, List.map_cons, List.filter_cons, ← ih]
      by_cases hT : (A.advance S l).isEmpty = true
      · simp [hT]
      · simp [hT]

open scoped Classical in
/-- The sets after one letter accept the left quotients by it, and those left out accept nothing. -/
theorem map_languageFrom_moves_subsets :
    (((A.subsets.moves S).map Prod.snd).map A.subsets.languageFrom).filter (fun Q => Q ≠ 0) =
      quotients A.alphabet.toList (A.subsets.languageFrom S) := by
  have hletters : A.alphabet.toList.map (fun l => (A.subsets.languageFrom S).leftQuotient [l]) =
      (A.alphabet.toList.map (A.advance S)).map A.subsets.languageFrom := by
    rw [List.map_map]
    exact List.map_congr_left fun l _ => languageFrom_advance.symm
  rw [quotients, hletters, map_moves_subsets]
  generalize A.alphabet.toList.map (A.advance S) = sets
  rw [List.filter_map, List.filter_map, List.filter_filter]
  refine congrArg (List.map _) (List.filter_congr fun T _ => ?_)
  cases hT : T.isEmpty with
  | true => simp [languageFrom_of_isEmpty hT]
  | false => simp

end Subsets

section Determinize

theorem residuals_determinize :
    A.determinize.residuals = A.subsets.nodes.map A.subsets.languageFrom :=
  residuals_eq_map Graph.size_automaton fun _ _ hx => A.bounded_subsets.languageFrom_automaton hx

end Determinize

section Minimize

open scoped Classical in
/-- A minimized automaton has a state for each language that some set of states accepts, in the
order of the first of these sets. -/
theorem residuals_minimize :
    A.minimize.residuals =
      ((A.subsets.nodes.map A.subsets.languageFrom).eraseDups).filter fun Q => Q ≠ 0 := by
  have haccessible (p : Nat) (hp : p < A.determinize.size) : p ∈ A.determinize.accessible :=
    A.isReachablePart_determinize.mem_accessible ⟨p, hp⟩
  rw [minimize, residuals_reduce A.deterministic_determinize.trim trim_trim,
    residuals_trim_of_accessible haccessible, residuals_determinize, eraseDups_filter]

/-- What the sets of states accept, without repetitions, is found from what the sets accept that are
met first and after one letter. -/
theorem eraseDups_map_nodes_subsets [DecidableEq (Language L)] :
    (A.subsets.nodes.map A.subsets.languageFrom).eraseDups =
      ([A.language] ++ A.subsets.nodes.flatMap fun S =>
        ((A.subsets.moves S).map Prod.snd).map A.subsets.languageFrom).eraseDups := by
  have hnodes := A.bounded_subsets.breadthFirst.nodes_eq
  calc (A.subsets.nodes.map A.subsets.languageFrom).eraseDups
      = ((Traversal.found (fun S => (A.subsets.moves S).map Prod.snd) A.subsets.starts
          A.subsets.nodes).map A.subsets.languageFrom).eraseDups := by rw [← hnodes]
    _ = ((A.subsets.starts ++ A.subsets.nodes.flatMap fun S =>
          (A.subsets.moves S).map Prod.snd).map A.subsets.languageFrom).eraseDups :=
        eraseDups_map_eraseDups _ _
    _ = _ := by rw [List.map_append, List.map_flatMap, ← languageFrom_start]; rfl

open scoped Classical in
/-- A set of states that accepts something accepts a left quotient that can be reached. -/
theorem reachable_languageFrom (hS : S ∈ A.subsets.nodes) (hne : A.subsets.languageFrom S ≠ 0) :
    Traversal.Reachable (quotients A.alphabet.toList) ([A.language].filter fun Q => Q ≠ 0)
      (A.subsets.languageFrom S) := by
  have hreach := A.bounded_subsets.breadthFirst.mem_iff.mp hS
  clear hS
  induction hreach with
  | start hS =>
      rw [List.mem_singleton.mp hS, languageFrom_start] at hne ⊢
      exact .start (List.mem_filter.mpr ⟨List.mem_singleton_self _, decide_eq_true hne⟩)
  | @step S T _ hT ih =>
      have hQ : A.subsets.languageFrom T ∈
          quotients A.alphabet.toList (A.subsets.languageFrom S) := by
        rw [← map_languageFrom_moves_subsets]
        exact List.mem_filter.mpr ⟨List.mem_map_of_mem hT, decide_eq_true hne⟩
      refine .step (ih fun hzero => ?_) hQ
      rw [hzero, quotients_zero] at hQ
      exact absurd hQ List.not_mem_nil

open scoped Classical in
/-- The states of a minimized automaton are in the order in which a breadth-first traversal finds
what they accept. -/
theorem breadthFirst_residuals_minimize :
    Traversal.BreadthFirst (quotients A.alphabet.toList)
      ([A.language].filter fun Q => Q ≠ 0) A.minimize.residuals := by
  have hexpand : (A.subsets.nodes.flatMap fun S =>
      ((A.subsets.moves S).map Prod.snd).map A.subsets.languageFrom).filter (fun Q => Q ≠ 0) =
        ((A.subsets.nodes.map A.subsets.languageFrom).filter fun Q => Q ≠ 0).flatMap
          (quotients A.alphabet.toList) := by
    rw [List.filter_flatMap]
    induction A.subsets.nodes with
    | nil => rfl
    | cons S rest ih =>
        rw [List.flatMap_cons, ih, map_languageFrom_moves_subsets, List.map_cons, List.filter_cons]
        by_cases hS : A.subsets.languageFrom S = 0
        · simp [hS]
        · simp [hS]
  constructor
  · rw [residuals_minimize, Traversal.found, ← eraseDups_filter,
      eraseDups_append_flatMap_eraseDups, ← hexpand, ← List.filter_append, eraseDups_filter,
      eraseDups_filter, eraseDups_map_nodes_subsets]
  · intro R hR
    rw [residuals_minimize] at hR
    obtain ⟨hmem, hne⟩ := List.mem_filter.mp hR
    obtain ⟨S, hS, rfl⟩ := List.mem_map.mp (List.mem_eraseDups.mp hmem)
    exact reachable_languageFrom hS (of_decide_eq_true hne)

theorem names_minimize : A.minimize.names = [] := by
  rw [minimize, reduce, mergeBy, names_ofParts]

/-- Minimizing automata for the same language leads to the same automaton.  Both list the left
quotients of the language in breadth-first order, and the letters that one of them tries in
addition lead to nothing. -/
theorem minimize_eq_of_language_eq (h : A.language = B.language) : A.minimize = B.minimize := by
  classical
  refine A.minimal_minimize.eq_of_residuals_eq B.minimal_minimize ?_ ?_ ?_
  · rw [language_minimize, language_minimize, h]
  · have hB := B.breadthFirst_residuals_minimize
    rw [← h] at hB
    apply A.breadthFirst_residuals_minimize.eq_of_next_eq hB
    intro R hR
    have hstarts {Q : Language L} (hQ : Q ∈ [A.language].filter fun Q => Q ≠ 0) :
        Q = A.language := List.mem_singleton.mp (List.mem_filter.mp hQ).1
    obtain ⟨v, rfl⟩ := exists_leftQuotient_of_reachable (fun _ => hstarts)
      (A.breadthFirst_residuals_minimize.reachable R hR)
    apply quotients_eq_of_mem_iff
    intro l w hw
    exact iff_of_true (mem_alphabet_of_mem_language hw (by simp))
      (mem_alphabet_of_mem_language (h ▸ hw) (by simp))
  · rw [names_minimize, names_minimize]

end Minimize

end Automaton

end FiniteState
