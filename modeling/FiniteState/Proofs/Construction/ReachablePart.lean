import FiniteState.Proofs.Automaton.Useful
import FiniteState.Proofs.Construction.Unfolding
import Mathlib.Data.List.NodupEquivFin
/-!
Transition systems, and when an automaton is the reachable part of one.  A system may have any
number of nodes; its reachable part is an automaton whose states stand for the nodes that can be
reached, each for one, with the same flags and moves, and so with the same runs.  The automaton of a
graph that lists the moves of a system is the reachable part of the system.
-/

namespace FiniteState

universe u v

variable {L : Type u} {α : Type v}

/-- Nodes with labelled moves between them, some of them initial and some terminal. -/
structure TransitionSystem (L : Type u) (α : Type v) where
  initial : α → Prop
  terminal : α → Prop
  moves : α → Option L → α → Prop

namespace TransitionSystem

variable {S : TransitionSystem L α} {a b : α} {l : Option L}

/-- Some run from an initial node leads to the node. -/
def Reachable (S : TransitionSystem L α) (a : α) : Prop :=
  ∃ i w, S.initial i ∧ Run S.moves i w a

/-- The states of the automaton stand for the reachable nodes of the system. -/
structure IsReachablePart [Label L] (S : TransitionSystem L α) (A : Automaton L)
    (nodeOf : Fin A.size ≃ { a // S.Reachable a }) : Prop where
  initial_iff (p : Fin A.size) : A.isInitial p = true ↔ S.initial (nodeOf p)
  terminal_iff (p : Fin A.size) : A.isTerminal p = true ↔ S.terminal (nodeOf p)
  moves_iff (p : Fin A.size) (l : Option L) (q : Fin A.size) :
    A.Moves p l q ↔ S.moves (nodeOf p) l (nodeOf q)

theorem reachable_of_initial (ha : S.initial a) : S.Reachable a :=
  ⟨a, [], ha, Run.done a⟩

theorem Reachable.step (ha : S.Reachable a) (hmove : S.moves a l b) : S.Reachable b := by
  obtain ⟨i, w, hi, hrun⟩ := ha
  exact ⟨i, w ++ l.toList, hi, hrun.append (Run.single hmove)⟩

namespace IsReachablePart

variable [Label L] {A : Automaton L} {nodeOf : Fin A.size ≃ { a // S.Reachable a }}
  {p q : Fin A.size} {w : List L}

/-- The number is that of a state, and the node is the one that it stands for. -/
def StandsFor (nodeOf : Fin A.size ≃ { a // S.Reachable a }) (x : Nat) (a : α) : Prop :=
  ∃ p : Fin A.size, (p : Nat) = x ∧ (nodeOf p : α) = a

theorem exists_moves_system (h : S.IsReachablePart A nodeOf) {x y : Nat} (hx : StandsFor nodeOf x a)
    (hmove : A.Moves x l y) : ∃ b, S.moves a l b ∧ StandsFor nodeOf y b := by
  obtain ⟨p, rfl, rfl⟩ := hx
  let q : Fin A.size := ⟨y, hmove.target_lt⟩
  exact ⟨nodeOf q, (h.moves_iff p l q).mp hmove, q, rfl, rfl⟩

/-- What a reachable node moves to is reachable, so some state stands for it. -/
theorem exists_moves_automaton (h : S.IsReachablePart A nodeOf) {x : Nat}
    (hx : StandsFor nodeOf x a) (hmove : S.moves a l b) :
    ∃ y, A.Moves x l y ∧ StandsFor nodeOf y b := by
  obtain ⟨p, rfl, rfl⟩ := hx
  obtain ⟨q, hq⟩ := nodeOf.surjective ⟨b, (nodeOf p).2.step hmove⟩
  have hb : (nodeOf q : α) = b := congrArg Subtype.val hq
  exact ⟨q, (h.moves_iff p l q).mpr (hb ▸ hmove), q, rfl, hb⟩

/-- A run of the automaton is a run of the system between the nodes of its ends. -/
theorem run_iff (h : S.IsReachablePart A nodeOf) :
    Run A.Moves p w q ↔ Run S.moves (nodeOf p) w (nodeOf q) := by
  have hp : StandsFor nodeOf p (nodeOf p) := ⟨p, rfl, rfl⟩
  constructor
  · intro hrun
    obtain ⟨b, hrun, y, hy, rfl⟩ : ∃ b, Run S.moves (nodeOf p) w b ∧ StandsFor nodeOf q b := by
      refine hrun.simulate (StandsFor nodeOf) ?_ hp
      exact fun _ _ _ _ hx hmove => h.exists_moves_system hx hmove
    rwa [Fin.ext hy] at hrun
  · intro hrun
    obtain ⟨x, hrun, y, rfl, hy⟩ : ∃ x, Run A.Moves p w x ∧ StandsFor nodeOf x (nodeOf q) := by
      refine hrun.simulate (fun a x => StandsFor nodeOf x a) ?_ hp
      exact fun _ _ _ _ hx hmove => h.exists_moves_automaton hx hmove
    rwa [nodeOf.injective (Subtype.ext hy)] at hrun

/-- The words that lead to a state are those that lead to its node. -/
theorem exists_run_iff (h : S.IsReachablePart A nodeOf) :
    (∃ i, A.isInitial i = true ∧ Run A.Moves i w q) ↔
      ∃ a, S.initial a ∧ Run S.moves a w (nodeOf q) := by
  constructor
  · rintro ⟨i, hi, hrun⟩
    let p : Fin A.size := ⟨i, Automaton.lt_size_of_isInitial hi⟩
    exact ⟨nodeOf p, (h.initial_iff p).mp hi, (h.run_iff (p := p)).mp hrun⟩
  · rintro ⟨a, ha, hrun⟩
    obtain ⟨p, hp⟩ := nodeOf.surjective ⟨a, reachable_of_initial ha⟩
    obtain rfl : (nodeOf p : α) = a := congrArg Subtype.val hp
    exact ⟨p, (h.initial_iff p).mpr ha, h.run_iff.mpr hrun⟩

theorem mem_accessible (h : S.IsReachablePart A nodeOf) (q : Fin A.size) :
    (q : Nat) ∈ A.accessible := by
  obtain ⟨a, w, ha, hrun⟩ := (nodeOf q).2
  obtain ⟨i, hi, hrun⟩ := h.exists_run_iff.mpr ⟨a, ha, hrun⟩
  exact Automaton.mem_accessible.mpr ⟨i, w, hi, hrun⟩

end IsReachablePart

end TransitionSystem

namespace Graph

variable {g : Graph L α} {S : TransitionSystem L α}

/-- The graph starts with the initial nodes of the system, and lists its moves. -/
structure Lists (g : Graph L α) (S : TransitionSystem L α) : Prop where
  starts (a : α) : a ∈ g.starts ↔ S.initial a
  initial (a : α) : g.initial a = true ↔ S.initial a
  terminal (a : α) : g.terminal a = true ↔ S.terminal a
  moves (a : α) (l : Option L) (b : α) : g.Moves a l b ↔ S.moves a l b

variable [Ordered α] [DecidableEq α] {candidates : List α}

omit [Ordered α] [DecidableEq α] in
theorem Lists.moves_eq (hlists : g.Lists S) : g.Moves = S.moves := by
  funext a l b
  exact propext (hlists.moves a l b)

/-- The nodes of the graph are those that can be reached in the system. -/
theorem Bounded.mem_nodes_iff (h : g.Bounded candidates) (hlists : g.Lists S) {a : α} :
    a ∈ g.nodes ↔ S.Reachable a := by
  constructor
  · intro ha
    obtain ⟨i, hi, w, hrun⟩ := h.exists_run ha
    exact ⟨i, w, (hlists.starts i).mp hi, hrun.map id fun a l b => (hlists.moves a l b).mp⟩
  · rintro ⟨i, w, hi, hrun⟩
    have hstart : i ∈ g.nodes := h.breadthFirst.mem_of_mem_starts ((hlists.starts i).mpr hi)
    refine hrun.preserves (fun a l b ha hmove => ?_) hstart
    exact h.mem_nodes_of_moves ha ((hlists.moves a l b).mpr hmove)

variable [Label L]

/-- The node whose place the state has. -/
def Bounded.nodeOf (h : g.Bounded candidates) (hlists : g.Lists S) :
    Fin g.automaton.size ≃ { a // S.Reachable a } :=
  (finCongr size_automaton).trans
    ((h.breadthFirst.nodup.getEquiv g.nodes).trans
      (Equiv.subtypeEquivRight fun _ => h.mem_nodes_iff hlists))

theorem Bounded.getElem?_nodeOf (h : g.Bounded candidates) (hlists : g.Lists S)
    (p : Fin g.automaton.size) : g.nodes[(p : Nat)]? = some (h.nodeOf hlists p : α) := by
  rw [List.getElem?_eq_getElem (by simpa using p.2)]
  rfl

/-- The automaton of a graph is the reachable part of the system that the graph lists. -/
theorem Bounded.isReachablePart (h : g.Bounded candidates) (hlists : g.Lists S) :
    S.IsReachablePart g.automaton (h.nodeOf hlists) := by
  have hnode := h.getElem?_nodeOf hlists
  constructor
  · intro p
    rw [isInitial_automaton, hnode p, ← hlists.initial]
    simp
  · intro p
    rw [isTerminal_automaton, hnode p, ← hlists.terminal]
    simp
  · intro p l q
    rw [h.moves_automaton, hnode p, hnode q, ← hlists.moves]
    simp

end Graph

end FiniteState
