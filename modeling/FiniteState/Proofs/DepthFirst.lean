import FiniteState.Proofs.BreadthFirst
/-!
The depth-first traversal of a finite graph lists exactly the nodes that can be reached.  What is
marked leads only to nodes that are marked or wait on the stack; so when the stack is empty, nothing
else can be reached.  A node may wait several times, and each time it takes a step; but only a node
that is not marked yet pushes its neighbours, so the number of steps is no restriction if there are
enough of them for the starting nodes and for the neighbours of every node.
-/

namespace FiniteState

universe u

variable {α : Type u} [Ordered α]

namespace Traversal

/-- In the middle of a depth-first traversal the nodes that are marked or wait on the stack can be
reached, the starting nodes are among them, and what is marked leads to no other nodes. -/
structure Pending (next : α → List α) (starts : List α) (marked : LookupSet α) (stack : List α) :
    Prop where
  reachable : ∀ a, a ∈ marked ∨ a ∈ stack → Reachable next starts a
  starts : ∀ a ∈ starts, a ∈ marked ∨ a ∈ stack
  closed : ∀ a ∈ marked, ∀ b ∈ next a, b ∈ marked ∨ b ∈ stack

variable {next : α → List α} {starts stack rest : List α} {marked : LookupSet α} {node : α}

theorem pending_start (next : α → List α) (starts : List α) :
    Pending next starts ∅ starts.reverse where
  reachable _ ha := .start (List.mem_reverse.mp (ha.resolve_left Std.ExtTreeSet.not_mem_empty))
  starts _ ha := Or.inr (List.mem_reverse.mpr ha)
  closed _ ha := absurd ha Std.ExtTreeSet.not_mem_empty

/-- When the stack is empty, all nodes that can be reached are marked. -/
theorem Pending.mem_iff (h : Pending next starts marked []) {a : α} :
    a ∈ marked ↔ Reachable next starts a := by
  constructor
  · exact fun ha => h.reachable a (Or.inl ha)
  · intro ha
    induction ha with
    | start ha => exact (h.starts _ ha).resolve_right List.not_mem_nil
    | step _ hb ih => exact (h.closed _ ih _ hb).resolve_right List.not_mem_nil

/-- A node that is marked is taken from the stack and forgotten. -/
theorem Pending.drop (h : Pending next starts marked (node :: rest)) (hnode : node ∈ marked) :
    Pending next starts marked rest := by
  have hrest {a : α} (ha : a ∈ marked ∨ a ∈ node :: rest) : a ∈ marked ∨ a ∈ rest := by
    rcases ha with ha | ha
    · exact Or.inl ha
    · rcases List.mem_cons.mp ha with rfl | ha
      · exact Or.inl hnode
      · exact Or.inr ha
  constructor
  · exact fun a ha => h.reachable a (ha.imp_right (List.mem_cons_of_mem node))
  · exact fun a ha => hrest (h.starts a ha)
  · exact fun a ha b hb => hrest (h.closed a ha b hb)

theorem mem_push {a : α} :
    a ∈ push next marked node rest ↔ a ∈ next node ∧ a ∉ marked ∨ a ∈ rest := by
  rw [push, List.mem_append, List.mem_reverse, List.mem_filter, Bool.not_eq_true',
    Bool.eq_false_iff]
  exact Iff.rfl

theorem length_push_le :
    (push next marked node rest).length ≤ (next node).length + rest.length := by
  rw [push, List.length_append, List.length_reverse]
  exact Nat.add_le_add_right (List.length_filter_le _ _) _

/-- Any other node is marked, and its neighbours are marked already or wait from now on. -/
theorem Pending.mark (h : Pending next starts marked (node :: rest)) :
    Pending next starts (marked.insert node) (push next (marked.insert node) node rest) := by
  have hnext {a : α} (ha : a ∈ next node) :
      a ∈ marked.insert node ∨ a ∈ push next (marked.insert node) node rest := by
    by_cases hmarked : a ∈ marked.insert node
    · exact Or.inl hmarked
    · exact Or.inr (mem_push.mpr (Or.inl ⟨ha, hmarked⟩))
  have hkept {a : α} (ha : a ∈ marked ∨ a ∈ node :: rest) :
      a ∈ marked.insert node ∨ a ∈ push next (marked.insert node) node rest := by
    rcases ha with ha | ha
    · exact Or.inl (LookupSet.mem_insert_iff.mpr (Or.inr ha))
    · rcases List.mem_cons.mp ha with rfl | ha
      · exact Or.inl (LookupSet.mem_insert_iff.mpr (Or.inl rfl))
      · exact Or.inr (mem_push.mpr (Or.inr ha))
  have hnode : Reachable next starts node := h.reachable node (Or.inr List.mem_cons_self)
  constructor
  · intro a ha
    rcases ha with ha | ha
    · rcases LookupSet.mem_insert_iff.mp ha with rfl | ha
      · exact hnode
      · exact h.reachable a (Or.inl ha)
    · rcases mem_push.mp ha with ⟨ha, -⟩ | ha
      · exact .step hnode ha
      · exact h.reachable a (Or.inr (List.mem_cons_of_mem node ha))
  · exact fun a ha => hkept (h.starts a ha)
  · intro a ha b hb
    rcases LookupSet.mem_insert_iff.mp ha with rfl | ha
    · exact hnext hb
    · exact hkept (h.closed a ha b hb)

def unmarked (nodes : List α) (marked : LookupSet α) : Nat :=
  nodes.countP fun a => !marked.contains a

/-- Marking one more of the nodes leaves fewer of them. -/
theorem unmarked_insert_lt {nodes : List α} (hnode : node ∈ nodes)
    (hmarked : ¬ marked.contains node = true) :
    unmarked nodes (marked.insert node) < unmarked nodes marked := by
  have hfewer (part : List α) : unmarked part (marked.insert node) ≤ unmarked part marked := by
    apply List.countP_mono_left
    intro a _ ha
    rw [Bool.not_eq_true', Bool.eq_false_iff] at ha ⊢
    exact fun hold => ha (LookupSet.mem_insert_iff.mpr (Or.inr hold))
  obtain ⟨before, after, rfl⟩ := List.append_of_mem hnode
  have hbefore := hfewer before
  have hafter := hfewer after
  have hnow : (marked.insert node).contains node = true :=
    LookupSet.mem_insert_iff.mpr (Or.inl rfl)
  rw [unmarked, unmarked, List.countP_append, List.countP_append,
    List.countP_cons_of_neg (by simp only [hnow, Bool.not_true, Bool.false_eq_true, not_false_eq_true]),
    List.countP_cons_of_pos (by simp only [hmarked, Bool.not_false])]
  exact Nat.lt_of_le_of_lt (Nat.add_le_add hbefore hafter) (Nat.lt_succ_self _)

/-- A traversal in progress ends with an empty stack, if there are enough steps for what waits on
the stack and for the neighbours of the nodes that are not marked yet. -/
theorem Pending.mem_sweep_iff {nodes : List α} {width : Nat}
    (hnodes : ∀ a, Reachable next starts a → a ∈ nodes)
    (hwidth : ∀ a ∈ nodes, (next a).length ≤ width) (steps : Nat)
    (h : Pending next starts marked stack)
    (hsteps : stack.length + unmarked nodes marked * width ≤ steps) {a : α} :
    a ∈ marked ∨ a ∈ sweep next steps marked stack ↔ Reachable next starts a := by
  induction steps generalizing marked stack with
  | zero =>
      have hstack : stack = [] := List.eq_nil_of_length_eq_zero (by omega)
      subst hstack
      rw [sweep, ← h.mem_iff]
      exact or_iff_left List.not_mem_nil
  | succ steps ih =>
      cases stack with
      | nil =>
          rw [sweep, ← h.mem_iff]
          exact or_iff_left List.not_mem_nil
      | cons node rest =>
          rw [sweep]
          rw [List.length_cons] at hsteps
          by_cases hmarked : marked.contains node = true
          · rw [if_pos hmarked]
            exact ih (h.drop hmarked) (by omega)
          · have hnode := hnodes node (h.reachable node (Or.inr List.mem_cons_self))
            have hlt := unmarked_insert_lt hnode hmarked
            rw [if_neg hmarked, ← ih h.mark ?_, LookupSet.mem_insert_iff, List.mem_cons]
            · exact or_left_comm.trans or_assoc.symm
            · have hpushed : (push next (marked.insert node) node rest).length ≤
                  (next node).length + rest.length := length_push_le
              have hmore := hwidth node hnode
              have hspent := Nat.mul_le_mul_right width (Nat.succ_le_of_lt hlt)
              rw [Nat.succ_mul] at hspent
              omega

/-- From the starting nodes on, a traversal with enough steps lists the nodes that can be
reached. -/
theorem mem_sweep_iff (nodes : List α) (width : Nat) {steps : Nat}
    (hnodes : ∀ a, Reachable next starts a → a ∈ nodes)
    (hwidth : ∀ a ∈ nodes, (next a).length ≤ width)
    (hsteps : starts.length + nodes.length * width ≤ steps) {a : α} :
    a ∈ sweep next steps ∅ starts.reverse ↔ Reachable next starts a := by
  have hunmarked : unmarked nodes ∅ * width ≤ nodes.length * width :=
    Nat.mul_le_mul_right width List.countP_le_length
  have hstart := pending_start next starts
  rw [← hstart.mem_sweep_iff hnodes hwidth steps (by rw [List.length_reverse]; omega)]
  exact (or_iff_right Std.ExtTreeSet.not_mem_empty).symm

end Traversal

end FiniteState
