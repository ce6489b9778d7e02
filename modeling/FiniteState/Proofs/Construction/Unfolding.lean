import FiniteState.Construction.Unfolding
import FiniteState.Proofs.Automaton.Language
import FiniteState.Proofs.Automaton.Parts
import FiniteState.Proofs.Numbering
import FiniteState.Proofs.Traversal
/-!
The automaton of a graph moves between the places of the nodes as the graph moves between the
nodes.  This takes that the bound of the graph is one: all nodes that can be reached have to be
among finitely many ones, of which there are not more than the bound says.
-/

namespace FiniteState

universe u v

variable {L : Type u} {α : Type v}

namespace Graph

/-- The nodes that can be reached are among the candidates, which are not more than the bound. -/
structure Bounded (g : Graph L α) (candidates : List α) : Prop where
  starts : ∀ a ∈ g.starts, a ∈ candidates
  closed : ∀ a ∈ candidates, ∀ m ∈ g.moves a, m.2 ∈ candidates
  length_le : candidates.length ≤ g.bound

def Moves (g : Graph L α) (a : α) (l : Option L) (b : α) : Prop :=
  (l, b) ∈ g.moves a

def languageFrom (g : Graph L α) (a : α) : Language L :=
  { w | ∃ b, Run g.Moves a w b ∧ g.terminal b = true }

section Nodes

variable [Ordered α] [DecidableEq α] {g : Graph L α} {candidates : List α}

theorem Bounded.breadthFirst (h : g.Bounded candidates) :
    Traversal.BreadthFirst (fun a => (g.moves a).map Prod.snd) g.starts g.nodes := by
  refine breadthFirst_reach h.starts (fun a ha b hb => ?_) h.length_le
  obtain ⟨m, hm, rfl⟩ := List.mem_map.mp hb
  exact h.closed a ha m hm

theorem Bounded.mem_nodes_of_moves (h : g.Bounded candidates) {a b : α} {l : Option L}
    (ha : a ∈ g.nodes) (hmove : g.Moves a l b) : b ∈ g.nodes :=
  h.breadthFirst.mem_of_mem_next ha (List.mem_map_of_mem hmove)

/-- There are not more nodes than the bound says, as each of them is one of the candidates. -/
theorem Bounded.length_nodes_le (h : g.Bounded candidates) : g.nodes.length ≤ g.bound := by
  have hsub : ∀ a ∈ g.nodes, a ∈ candidates := by
    intro a ha
    have hreach := h.breadthFirst.mem_iff.mp ha
    induction hreach with
    | start hs => exact h.starts _ hs
    | @step a b hreach hb ih =>
        obtain ⟨m, hm, rfl⟩ := List.mem_map.mp hb
        exact h.closed a (ih (h.breadthFirst.mem_iff.mpr hreach)) m hm
  exact (List.subperm_of_subset h.breadthFirst.nodup hsub).length_le.trans h.length_le

theorem Bounded.exists_run (h : g.Bounded candidates) {a : α} (ha : a ∈ g.nodes) :
    ∃ s ∈ g.starts, ∃ w, Run g.Moves s w a := by
  have hreach := h.breadthFirst.mem_iff.mp ha
  induction hreach with
  | @start a hs => exact ⟨a, hs, [], Run.done a⟩
  | @step a b hreach hb ih =>
      obtain ⟨s, hs, w, hrun⟩ := ih (h.breadthFirst.mem_iff.mpr hreach)
      obtain ⟨⟨l, b⟩, hmove, rfl⟩ := List.mem_map.mp hb
      exact ⟨s, hs, w ++ l.toList, hrun.append (Run.single hmove)⟩

end Nodes

section Automaton

variable [Ordered α] [DecidableEq α] [Label L] {g : Graph L α} {candidates : List α} {x y : Nat}
  {l : Option L} {w : List L}

omit [DecidableEq α] in
@[simp] theorem size_automaton : g.automaton.size = g.nodes.length := by
  rw [automaton, Automaton.size_ofParts, List.length_map]

omit [DecidableEq α] in
theorem isInitial_automaton :
    g.automaton.isInitial x = true ↔ ∃ a, g.nodes[x]? = some a ∧ g.initial a = true := by
  rw [automaton, Automaton.isInitial_ofParts, List.getElem?_map, Option.any_map, Option.any_eq_true]

omit [DecidableEq α] in
theorem isTerminal_automaton :
    g.automaton.isTerminal x = true ↔ ∃ a, g.nodes[x]? = some a ∧ g.terminal a = true := by
  rw [automaton, Automaton.isTerminal_ofParts, List.getElem?_map, Option.any_map,
    Option.any_eq_true]

theorem Bounded.moves_automaton (h : g.Bounded candidates) :
    g.automaton.Moves x l y ↔
      ∃ a b, g.nodes[x]? = some a ∧ g.nodes[y]? = some b ∧ g.Moves a l b := by
  have hplaces := numbers_positions h.breadthFirst.nodup
  have hplace {a : α} {y : Nat} (ha : g.nodes[y]? = some a) : (positions g.nodes).getD a 0 = y := by
    rw [Std.TreeMap.getD_eq_getD_getElem?, (hplaces.getElem?_eq a y).mpr ha, Option.getD_some]
  rw [automaton, Automaton.moves_ofParts, List.mem_flatMap, List.length_map]
  constructor
  · intro h
    rcases h with ⟨⟨⟨a, i⟩, hentry, htransition⟩, -, -⟩
    obtain ⟨⟨l', b⟩, hmove, heq⟩ := List.mem_map.mp htransition
    simp only [Transition.mk.injEq] at heq
    obtain ⟨rfl, rfl, rfl⟩ := heq
    have hi := List.mem_zipIdx_iff_getElem?.mp hentry
    obtain ⟨y, hy⟩ := List.mem_iff_getElem?.mp
      (h.mem_nodes_of_moves (List.mem_of_getElem? hi) hmove)
    refine ⟨a, b, hi, ?_, hmove⟩
    rw [hplace hy]
    exact hy
  · intro h
    rcases h with ⟨a, b, hx, hy, hmove⟩
    refine ⟨⟨(a, x), List.mem_zipIdx_iff_getElem?.mpr hx, List.mem_map.mpr ⟨(l, b), hmove, ?_⟩⟩,
      (List.getElem?_eq_some_iff.mp hx).1, (List.getElem?_eq_some_iff.mp hy).1⟩
    rw [hplace hy]

/-- Runs of the automaton are runs of the graph. -/
theorem Bounded.run_of_run_automaton (h : g.Bounded candidates) {a : α}
    (hrun : Run g.automaton.Moves x w y) (hx : g.nodes[x]? = some a) :
    ∃ b, Run g.Moves a w b ∧ g.nodes[y]? = some b := by
  refine hrun.simulate (fun x a => g.nodes[x]? = some a) ?_ hx
  rintro x a l y hx hmove
  obtain ⟨a', b, hx', hy, hmove⟩ := h.moves_automaton.mp hmove
  cases hx.symm.trans hx'
  exact ⟨b, hmove, hy⟩

theorem Bounded.run_automaton_of_run (h : g.Bounded candidates) {a b : α}
    (hrun : Run g.Moves a w b) (hx : g.nodes[x]? = some a) :
    ∃ y, Run g.automaton.Moves x w y ∧ g.nodes[y]? = some b := by
  refine hrun.simulate (fun a (x : Nat) => g.nodes[x]? = some a) ?_ hx
  rintro a x l b hx hmove
  obtain ⟨y, hy⟩ := List.mem_iff_getElem?.mp (h.mem_nodes_of_moves (List.mem_of_getElem? hx) hmove)
  exact ⟨y, h.moves_automaton.mpr ⟨a, b, hx, hy, hmove⟩, hy⟩

/-- The state of a node accepts what leads from the node to a terminal one. -/
theorem Bounded.languageFrom_automaton (h : g.Bounded candidates) {a : α}
    (hx : g.nodes[x]? = some a) : g.automaton.languageFrom x = g.languageFrom a := by
  ext w
  constructor
  · intro h
    rcases h with ⟨y, hrun, hterm⟩
    obtain ⟨b, hrun, hy⟩ := h.run_of_run_automaton hrun hx
    obtain ⟨b', hy', hterm⟩ := isTerminal_automaton.mp hterm
    cases hy.symm.trans hy'
    exact ⟨b, hrun, hterm⟩
  · intro h
    rcases h with ⟨b, hrun, hterm⟩
    obtain ⟨y, hrun, hy⟩ := h.run_automaton_of_run hrun hx
    exact ⟨y, hrun, isTerminal_automaton.mpr ⟨b, hy, hterm⟩⟩

/-- The automaton accepts what leads from initial nodes to terminal ones. -/
theorem Bounded.mem_language_automaton (h : g.Bounded candidates) :
    w ∈ g.automaton.language ↔ ∃ a ∈ g.nodes, g.initial a = true ∧ w ∈ g.languageFrom a := by
  constructor
  · intro h
    rcases h with ⟨x, hx, hw⟩
    obtain ⟨a, hxa, ha⟩ := isInitial_automaton.mp hx
    rw [h.languageFrom_automaton hxa] at hw
    exact ⟨a, List.mem_of_getElem? hxa, ha, hw⟩
  · intro h
    rcases h with ⟨a, hmem, ha, hw⟩
    obtain ⟨x, hx⟩ := List.mem_iff_getElem?.mp hmem
    rw [← h.languageFrom_automaton hx] at hw
    exact ⟨x, isInitial_automaton.mpr ⟨a, hx, ha⟩, hw⟩

end Automaton

end Graph

end FiniteState
