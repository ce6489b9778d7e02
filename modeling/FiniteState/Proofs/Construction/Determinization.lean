import FiniteState.Construction.Determinization
import FiniteState.Proofs.Automaton.Deterministic
import FiniteState.Proofs.Construction.Unfolding
import Mathlib.Data.List.Sublists
/-!
The determinized automaton.  Its states are the sets of states that words lead to, there are at
most as many of them as sets of states, and reading a word in it leads to the set of the states
that the word leads to.
-/

namespace FiniteState

universe u

variable {L : Type u} [Label L]

namespace Automaton

variable {A : Automaton L} {S T : StateSet} {p q : Nat} {l : L} {label : Option L} {w : List L}

section Subsets

def stateSets (A : Automaton L) : List StateSet :=
  A.states.sublists.map OrderedSet.ofList

theorem length_stateSets (A : Automaton L) : A.stateSets.length = 2 ^ A.size := by
  rw [stateSets, List.length_map, List.length_sublists, states, List.length_range]

theorem mem_stateSets (hS : ∀ p ∈ S, p < A.size) : S ∈ A.stateSets := by
  refine List.mem_map.mpr ⟨A.states.filter S.contains, ?_, OrderedSet.eq_of_mem_iff fun p => ?_⟩
  · exact List.mem_sublists.mpr List.filter_sublist
  · rw [OrderedSet.mem_ofList, List.mem_filter, OrderedSet.contains_iff, mem_states]
    exact and_iff_right_of_imp (hS p)

theorem closure_mem_stateSets (states : List Nat) : A.closure states ∈ A.stateSets := by
  apply mem_stateSets
  intro p hp
  obtain ⟨q, -, hq, hrun⟩ := mem_closure.mp hp
  exact run_lt_size hrun hq

theorem mem_alphabet_of_mem_advance (hq : q ∈ A.advance S l) : l ∈ A.alphabet := by
  obtain ⟨p, -, r, hmove, -⟩ := mem_advance.mp hq
  exact mem_alphabet.mpr ⟨p, r, hmove⟩

theorem mem_moves_subsets :
    (label, T) ∈ A.subsets.moves S ↔ ∃ l, label = some l ∧ A.advance S l = T ∧ ∃ q, q ∈ T := by
  have hempty (T : StateSet) : T.isEmpty = false ↔ ∃ q, q ∈ T := by
    rw [← Bool.not_eq_true, OrderedSet.isEmpty_iff, not_forall]
    exact exists_congr fun _ => not_not
  simp only [subsets, List.mem_filterMap]
  constructor
  · intro h
    rcases h with ⟨l, -, hl⟩
    split at hl
    · cases hl
    · rename_i hT
      cases hl
      exact ⟨l, rfl, rfl, (hempty _).mp (eq_false_of_ne_true hT)⟩
  · intro h
    rcases h with ⟨l, rfl, rfl, q, hq⟩
    refine ⟨l, mem_alphabet_of_mem_advance hq, ?_⟩
    rw [if_neg (Bool.eq_false_iff.mp ((hempty _).mpr ⟨q, hq⟩))]

theorem bounded_subsets (A : Automaton L) : A.subsets.Bounded A.stateSets := by
  refine ⟨fun S hS => ?_, fun S _ m hm => ?_, A.length_stateSets.le⟩
  · rw [List.mem_singleton.mp hS]
    exact closure_mem_stateSets _
  · obtain ⟨l, -, hT, -⟩ := mem_moves_subsets.mp hm
    rw [← hT]
    exact closure_mem_stateSets _

/-- Runs between sets of states read as the automaton does. -/
theorem eq_readFrom_of_run_subsets (hrun : Run A.subsets.Moves S w T) : T = A.readFrom S w := by
  induction hrun with
  | done _ => rfl
  | silent hmove _ _ =>
      obtain ⟨l, hl, -⟩ := mem_moves_subsets.mp hmove
      cases hl
  | read hmove _ ih =>
      obtain ⟨l, hl, rfl, -⟩ := mem_moves_subsets.mp hmove
      cases hl
      exact ih

theorem run_subsets_readFrom (hw : ∃ q, q ∈ A.readFrom S w) :
    Run A.subsets.Moves S w (A.readFrom S w) := by
  induction w generalizing S with
  | nil => exact Run.done S
  | cons l w ih =>
      refine Run.read (mem_moves_subsets.mpr ⟨l, rfl, rfl, ?_⟩) (ih hw)
      obtain ⟨q, hq⟩ := hw
      obtain ⟨p, hp, -⟩ := (mem_readFrom (silentClosed_closure A _)).mp hq
      exact ⟨p, hp⟩

theorem mem_languageFrom_subsets :
    w ∈ A.subsets.languageFrom S ↔ A.meetsTerminal (A.readFrom S w) = true := by
  constructor
  · intro h
    rcases h with ⟨T, hrun, hT⟩
    rwa [← eq_readFrom_of_run_subsets hrun]
  · intro h
    obtain ⟨q, hq, -⟩ := meetsTerminal_iff.mp h
    exact ⟨_, run_subsets_readFrom ⟨q, hq⟩, h⟩

theorem start_mem_nodes_subsets : A.start ∈ A.subsets.nodes :=
  A.bounded_subsets.breadthFirst.mem_of_mem_starts (List.mem_singleton_self _)

theorem isInitial_subsets : A.subsets.initial S = true ↔ S = A.start :=
  beq_iff_eq

end Subsets

section Determinize

theorem deterministic_determinize (A : Automaton L) : A.determinize.Deterministic := by
  have hbounded := A.bounded_subsets
  have hnodup := hbounded.breadthFirst.nodup
  constructor
  · intro x y hx hy
    obtain ⟨S, hxS, hS⟩ := Graph.isInitial_automaton.mp hx
    obtain ⟨T, hyT, hT⟩ := Graph.isInitial_automaton.mp hy
    rw [isInitial_subsets.mp hS] at hxS
    rw [isInitial_subsets.mp hT] at hyT
    exact place_unique hnodup hxS hyT
  · intro x y hmove
    obtain ⟨S, T, -, -, hmove⟩ := hbounded.moves_automaton.mp hmove
    obtain ⟨l, hl, -⟩ := mem_moves_subsets.mp hmove
    cases hl
  · intro x label y y' hmove hmove'
    obtain ⟨S, T, hx, hy, hmove⟩ := hbounded.moves_automaton.mp hmove
    obtain ⟨S', T', hx', hy', hmove'⟩ := hbounded.moves_automaton.mp hmove'
    cases hx.symm.trans hx'
    obtain ⟨l, rfl, rfl, -⟩ := mem_moves_subsets.mp hmove
    obtain ⟨l', hl', rfl, -⟩ := mem_moves_subsets.mp hmove'
    cases hl'
    exact place_unique hnodup hy hy'

/-- Determinization keeps the language. -/
theorem language_determinize (A : Automaton L) : A.determinize.language = A.language := by
  ext w
  rw [determinize, A.bounded_subsets.mem_language_automaton, ← accepts_iff_mem_language,
    accepts_eq]
  constructor
  · intro h
    rcases h with ⟨S, -, hS, hw⟩
    rw [isInitial_subsets.mp hS] at hw
    exact mem_languageFrom_subsets.mp hw
  · intro hw
    exact ⟨A.start, start_mem_nodes_subsets, isInitial_subsets.mpr rfl,
      mem_languageFrom_subsets.mpr hw⟩

theorem exists_isInitial_determinize (A : Automaton L) : ∃ x, A.determinize.isInitial x = true := by
  obtain ⟨x, hx⟩ := List.mem_iff_getElem?.mp (start_mem_nodes_subsets (A := A))
  exact ⟨x, Graph.isInitial_automaton.mpr ⟨A.start, hx, isInitial_subsets.mpr rfl⟩⟩

end Determinize

end Automaton

end FiniteState
