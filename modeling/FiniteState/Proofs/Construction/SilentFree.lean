import FiniteState.Construction.Removal
import FiniteState.Proofs.Automaton.Language
import FiniteState.Proofs.Automaton.Parts
/-!
Removing the silent moves keeps the language of every state, and removing them twice changes no more
than removing them once.
-/

namespace FiniteState

universe u

variable {L : Type u} [Label L]

namespace Automaton

variable {A : Automaton L} {p q : Nat} {l : Option L}

@[simp] theorem size_removeEpsilon : A.removeEpsilon.size = A.size := by
  simp [removeEpsilon, states]

theorem mem_closure_singleton : q ∈ A.closure [p] ↔ p < A.size ∧ Run A.Moves p [] q := by
  rw [mem_closure]
  simp

theorem moves_removeEpsilon :
    A.removeEpsilon.Moves p l q ↔ l.isSome = true ∧ ∃ r, Run A.Moves p [] r ∧ A.Moves r l q := by
  rw [removeEpsilon, moves_ofParts]
  simp only [List.mem_flatMap, mem_states, OrderedSet.mem_toList, mem_closure_singleton,
    List.mem_map, List.mem_filter, List.length_map, Transition.mk.injEq]
  constructor
  · intro h
    rcases h with ⟨⟨p', -, r, ⟨-, hrun⟩, m, ⟨hm, hsome⟩, rfl, rfl, rfl⟩, -⟩
    exact ⟨hsome, r, hrun, hm⟩
  · intro h
    rcases h with ⟨hsome, r, hrun, hmove⟩
    have hp : p < A.size := by
      cases hrun with
      | done _ => exact hmove.start_lt
      | silent h _ => exact h.start_lt
    exact ⟨⟨p, hp, r, ⟨hp, hrun⟩, ⟨l, q⟩, ⟨hmove, hsome⟩, rfl, rfl, rfl⟩,
      by simpa [states] using hp, by simpa [states] using hmove.target_lt⟩

theorem isInitial_removeEpsilon (p : Nat) : A.removeEpsilon.isInitial p = A.isInitial p := by
  rw [removeEpsilon, isInitial_ofParts, ← any_initial_flags A, flags, List.getElem?_map,
    List.getElem?_map, Option.any_map, Option.any_map]

theorem isTerminal_removeEpsilon :
    A.removeEpsilon.isTerminal p = true ↔ ∃ r, Run A.Moves p [] r ∧ A.isTerminal r = true := by
  rw [removeEpsilon, isTerminal_ofParts, List.getElem?_map, Option.any_map, states]
  by_cases hp : p < A.size
  · rw [List.getElem?_range hp, Option.any_some]
    simp only [meetsTerminal_iff, mem_closure_singleton, hp, true_and]
  · rw [List.getElem?_eq_none (by simpa using hp)]
    refine ⟨fun h => absurd h (by simp), ?_⟩
    intro h
    rcases h with ⟨r, hrun, hr⟩
    cases hrun with
    | done _ => exact absurd (lt_size_of_isTerminal hr) hp
    | silent h _ => exact absurd h.start_lt hp

theorem isEpsilonFree_removeEpsilon : A.removeEpsilon.isEpsilonFree = true := by
  rw [isEpsilonFree_iff]
  intro p q hmove
  simpa using (moves_removeEpsilon.mp hmove).1

theorem eq_of_silent_run (h : A.isEpsilonFree = true) (hrun : Run A.Moves p [] q) : p = q := by
  refine hrun.preserves_silently (p := fun r => p = r) (fun a b _ hmove => ?_) rfl
  exact absurd hmove (isEpsilonFree_iff.mp h a b)

/-- An automaton without silent moves is not changed, unless it has names. -/
theorem removeEpsilon_eq_self (h : A.isEpsilonFree = true) (hnames : A.names = []) :
    A.removeEpsilon = A := by
  refine eq_of_moves_iff size_removeEpsilon isInitial_removeEpsilon (fun p => ?_)
    (fun p l q => ?_) (names_ofParts.trans hnames.symm)
  · rw [Bool.eq_iff_iff, isTerminal_removeEpsilon]
    constructor
    · rintro ⟨r, hrun, hr⟩
      rwa [eq_of_silent_run h hrun]
    · exact fun hp => ⟨p, Run.done p, hp⟩
  · rw [moves_removeEpsilon]
    constructor
    · rintro ⟨-, r, hrun, hmove⟩
      rwa [eq_of_silent_run h hrun]
    · intro hmove
      refine ⟨?_, p, Run.done p, hmove⟩
      rw [Option.isSome_iff_ne_none]
      rintro rfl
      exact isEpsilonFree_iff.mp h p q hmove

theorem removeEpsilon_removeEpsilon : A.removeEpsilon.removeEpsilon = A.removeEpsilon :=
  removeEpsilon_eq_self isEpsilonFree_removeEpsilon names_ofParts

/-- A silent move in front does not add to what a state accepts without silent moves. -/
theorem mem_languageFrom_removeEpsilon_of_silent {w : List L} (hmove : A.Moves p none q)
    (hw : w ∈ A.removeEpsilon.languageFrom q) : w ∈ A.removeEpsilon.languageFrom p := by
  obtain ⟨t, hrun, ht⟩ := hw
  cases hrun with
  | done _ =>
      obtain ⟨r, hsilent, hr⟩ := isTerminal_removeEpsilon.mp ht
      exact ⟨p, Run.done p, isTerminal_removeEpsilon.mpr ⟨r, Run.silent hmove hsilent, hr⟩⟩
  | silent h _ => simpa using (moves_removeEpsilon.mp h).1
  | read h hrest =>
      obtain ⟨hsome, r, hsilent, hread⟩ := moves_removeEpsilon.mp h
      have hdirect := moves_removeEpsilon.mpr ⟨hsome, r, Run.silent hmove hsilent, hread⟩
      exact ⟨t, Run.read hdirect hrest, ht⟩

theorem languageFrom_removeEpsilon (p : Nat) :
    A.removeEpsilon.languageFrom p = A.languageFrom p := by
  ext w
  constructor
  · intro h
    rcases h with ⟨t, hrun, ht⟩
    induction hrun using Run.inductionOnMoves with
    | done t => exact isTerminal_removeEpsilon.mp ht
    | step p q t l w hmove _ ih =>
        obtain ⟨-, r, hsilent, hread⟩ := moves_removeEpsilon.mp hmove
        have hrest := append_mem_languageFrom (Run.single hread) (ih ht)
        exact mem_languageFrom_of_silent hsilent hrest
  · intro h
    rcases h with ⟨t, hrun, ht⟩
    induction hrun with
    | done t => exact ⟨t, Run.done t, isTerminal_removeEpsilon.mpr ⟨t, Run.done t, ht⟩⟩
    | silent hmove _ ih => exact mem_languageFrom_removeEpsilon_of_silent hmove (ih ht)
    | @read p _ _ _ _ hmove _ ih =>
        have hread := moves_removeEpsilon.mpr ⟨rfl, p, Run.done p, hmove⟩
        exact append_mem_languageFrom (Run.single hread) (ih ht)

theorem language_removeEpsilon : A.removeEpsilon.language = A.language := by
  ext w
  simp only [mem_language, isInitial_removeEpsilon, languageFrom_removeEpsilon]

theorem initials_removeEpsilon (A : Automaton L) : A.removeEpsilon.initials = A.initials := by
  refine OrderedSet.eq_of_mem_iff fun p => ?_
  rw [mem_initials, mem_initials, isInitial_removeEpsilon]

/-- Without the silent moves every state accepts what it accepted with them.  States and initial
states are the same, and every transition reads a label. -/
theorem removeEpsilon_keeps_states_and_their_languages (A : Automaton L) :
    (∀ i w, w ∈ A.removeEpsilon.languageFrom i ↔ w ∈ A.languageFrom i) ∧
    A.removeEpsilon.size = A.size ∧
    A.removeEpsilon.initials = A.initials ∧
    ∀ t ∈ A.removeEpsilon.transitions, t.label ≠ none := by
  refine ⟨fun i w => ?_, size_removeEpsilon, A.initials_removeEpsilon, fun t ht hsilent => ?_⟩
  · rw [languageFrom_removeEpsilon]
  · have hmove := mem_transitions.mp ht
    rw [hsilent] at hmove
    exact isEpsilonFree_iff.mp isEpsilonFree_removeEpsilon _ _ hmove

/-- Silent moves behind the last letter make its target terminal, and those on a cycle lead on to
what is read from it. -/
example :
    let cycle : Automaton Char :=
      .ofParts [⟨true, false⟩, ⟨false, false⟩, ⟨false, false⟩, ⟨false, true⟩]
        [⟨0, none, 1⟩, ⟨1, some 'a', 2⟩, ⟨2, none, 0⟩, ⟨2, none, 3⟩, ⟨3, some 'b', 3⟩]
    cycle.removeEpsilon.isTerminal 2 = true ∧ cycle.removeEpsilon.isTerminal 1 = false ∧
      cycle.removeEpsilon.accepts ['a', 'b'] = true ∧
      cycle.removeEpsilon.accepts ['a', 'a'] = true ∧
      cycle.removeEpsilon.accepts ['b'] = false := by
  decide +kernel

end Automaton

end FiniteState
