import FiniteState.Proofs.Construction.Determinization
import FiniteState.Proofs.Construction.ReachablePart
/-!
The subset construction.  The sets of states in which an automaton may be form a transition system
of their own, where a letter leads from a set to all states that it may lead to.  Determinizing an
automaton gives the reachable part of that system: there is one state for each set that words lead
to, except for the empty set, and reading a word leads to the state of the set that the word leads
to.
-/

namespace FiniteState

universe u

variable {L : Type u} [Label L]

/-- The sets of states of an automaton, where the closure of the initial states is the initial set.
A letter leads from a set to the closure of what one step on the letter leads to, but never to the
empty set. -/
def subsetSystem (A : Automaton L) : TransitionSystem L StateSet where
  initial S := S = A.closure A.initials.toList
  terminal S := ∃ p ∈ S, A.isTerminal p = true
  moves S label T := ∃ l, label = some l ∧ A.closure (A.step S l).toList = T ∧ ∃ q, q ∈ T

namespace Automaton

variable {A : Automaton L} {S T : StateSet} {w : List L}

theorem lists_subsetSystem (A : Automaton L) : A.subsets.Lists (subsetSystem A) := by
  constructor
  · exact fun _ => List.mem_singleton
  · exact fun _ => isInitial_subsets
  · exact fun _ => meetsTerminal_iff
  · exact fun _ _ _ => mem_moves_subsets

/-- The set of states that a state of the determinized automaton stands for. -/
def subsetOf (A : Automaton L) :
    Fin A.determinize.size ≃ { S // (subsetSystem A).Reachable S } :=
  A.bounded_subsets.nodeOf A.lists_subsetSystem

theorem isReachablePart_determinize (A : Automaton L) :
    (subsetSystem A).IsReachablePart A.determinize A.subsetOf :=
  A.bounded_subsets.isReachablePart A.lists_subsetSystem

theorem size_determinize_le (A : Automaton L) : A.determinize.size ≤ 2 ^ A.size := by
  rw [determinize, Graph.size_automaton]
  exact A.bounded_subsets.length_nodes_le

/-- Reading a word leads from a set to one set only, and to none if no state is left after reading
something. -/
theorem run_subsetSystem_iff :
    Run (subsetSystem A).moves S w T ↔ A.readFrom S w = T ∧ (w = [] ∨ ∃ q, q ∈ T) := by
  rw [← A.lists_subsetSystem.moves_eq]
  constructor
  · intro hrun
    refine ⟨(eq_readFrom_of_run_subsets hrun).symm, ?_⟩
    induction hrun with
    | done _ => exact Or.inl rfl
    | silent hmove _ _ =>
        obtain ⟨l, hl, -⟩ := mem_moves_subsets.mp hmove
        cases hl
    | read hmove hrest ih =>
        rcases ih with rfl | hT
        · obtain ⟨-, -, -, hT⟩ := mem_moves_subsets.mp hmove
          rw [eq_readFrom_of_run_subsets hrest]
          exact Or.inr hT
        · exact Or.inr hT
  · rintro ⟨rfl, rfl | hT⟩
    · exact Run.done S
    · exact run_subsets_readFrom hT

/-- The sets that can be reached are those that words lead to. -/
theorem reachable_subsetSystem_iff :
    (subsetSystem A).Reachable S ↔ ∃ w, A.readFrom A.start w = S ∧ (w = [] ∨ ∃ q, q ∈ S) := by
  constructor
  · rintro ⟨S₀, w, rfl, hrun⟩
    exact ⟨w, run_subsetSystem_iff.mp hrun⟩
  · rintro ⟨w, hw⟩
    exact ⟨A.start, w, rfl, run_subsetSystem_iff.mpr hw⟩

/-- A word leads to a state of the determinized automaton if it leads to the set of that state,
unless no state is left after reading something. -/
theorem mem_readFrom_determinize {x : Fin A.determinize.size} :
    (x : Nat) ∈ A.determinize.readFrom A.determinize.start w ↔
      A.readFrom A.start w = A.subsetOf x ∧ (w = [] ∨ ∃ q, q ∈ A.readFrom A.start w) := by
  rw [mem_readFrom_start, A.isReachablePart_determinize.exists_run_iff]
  constructor
  · rintro ⟨S₀, rfl, hrun⟩
    obtain ⟨hread, hw⟩ := run_subsetSystem_iff.mp hrun
    exact ⟨hread, hread ▸ hw⟩
  · rintro ⟨hread, hw⟩
    exact ⟨A.start, rfl, run_subsetSystem_iff.mpr ⟨hread, hread ▸ hw⟩⟩

/-- After a word the determinized automaton is in some state, unless no state is left after reading
something. -/
theorem exists_mem_readFrom_determinize_iff :
    (∃ x, x ∈ A.determinize.readFrom A.determinize.start w) ↔
      w = [] ∨ ∃ q, q ∈ A.readFrom A.start w := by
  constructor
  · rintro ⟨x, hx⟩
    obtain ⟨i, hi, hrun⟩ := mem_readFrom_start.mp hx
    have hlt : x < A.determinize.size := run_lt_size hrun (lt_size_of_isInitial hi)
    exact (mem_readFrom_determinize (x := ⟨x, hlt⟩)).mp hx |>.2
  · intro hw
    obtain ⟨x, hx⟩ := A.subsetOf.surjective ⟨_, reachable_subsetSystem_iff.mpr ⟨w, rfl, hw⟩⟩
    exact ⟨x, mem_readFrom_determinize.mpr ⟨(congrArg Subtype.val hx).symm, hw⟩⟩

/-- The determinized automaton is deterministic, accepts the same words, and has one accessible
state for each of the sets that the closure of the initial states leads to.  A word leads to the
state of the set of the states that it leads to, and to no state exactly if this set is empty and
something was read. -/
theorem determinize_is_subset_construction (A : Automaton L) :
    A.determinize.isDeterministic = true ∧
    (∀ x : Fin A.determinize.size, (x : Nat) ∈ A.determinize.accessible) ∧
    (∀ w, A.determinize.accepts w = A.accepts w) ∧
    (subsetSystem A).IsReachablePart A.determinize A.subsetOf ∧
    A.determinize.size ≤ 2 ^ A.size ∧
    (∀ w q, q ∈ A.readFrom A.start w ↔ ∃ p, A.isInitial p = true ∧ Run A.Moves p w q) ∧
    (∀ w (x : Fin A.determinize.size),
      (x : Nat) ∈ A.determinize.readFrom A.determinize.start w ↔
        A.readFrom A.start w = A.subsetOf x ∧ (w = [] ∨ ∃ q, q ∈ A.readFrom A.start w)) ∧
    ∀ w, (∀ x, x ∉ A.determinize.readFrom A.determinize.start w) ↔
      w ≠ [] ∧ ∀ q, q ∉ A.readFrom A.start w := by
  have hpart := A.isReachablePart_determinize
  refine ⟨isDeterministic_iff.mpr A.deterministic_determinize, hpart.mem_accessible,
    language_eq_iff.mp A.language_determinize, hpart, A.size_determinize_le,
    fun _ _ => mem_readFrom_start, fun _ _ => mem_readFrom_determinize, fun w => ?_⟩
  rw [← not_exists, exists_mem_readFrom_determinize_iff, not_or, not_exists]

/-- Without initial states there is one state for the empty set, and no letter leads to it. -/
example :
    let nothing : Automaton Char := .ofParts [⟨false, true⟩] [⟨0, some 'a', 0⟩]
    nothing.determinize.size = 1 ∧ nothing.determinize.isInitial 0 = true ∧
      nothing.determinize.transitions = [] := by
  decide +kernel

end Automaton

end FiniteState
