import FiniteState.Proofs.FirstOccurrence
import FiniteState.Traversal
import Mathlib.Data.List.Perm.Subperm
/-!
What a breadth-first traversal lists.  The nodes are the first occurrences among the starting nodes
followed by the neighbours of the listed nodes in order, and each of them can be reached.  These two
facts determine the list, and renaming the nodes of a graph renames its list.
-/

namespace FiniteState

universe u v

variable {α : Type u} {β : Type v}

namespace Traversal

/-- A node that some path from a starting node leads to. -/
inductive Reachable (next : α → List α) (starts : List α) : α → Prop where
  | start {a : α} : a ∈ starts → Reachable next starts a
  | step {a b : α} : Reachable next starts a → b ∈ next a → Reachable next starts b

/-- The nodes that are known when the nodes `expanded` have been expanded in order. -/
def found [DecidableEq α] (next : α → List α) (starts expanded : List α) : List α :=
  (starts ++ expanded.flatMap next).eraseDups

/-- A list of the reachable nodes in breadth-first order: expanding the nodes in the order of the
list discovers them in that very order. -/
structure BreadthFirst [DecidableEq α] (next : α → List α) (starts nodes : List α) : Prop where
  nodes_eq : nodes = found next starts nodes
  reachable : ∀ a ∈ nodes, Reachable next starts a

section Found

variable [DecidableEq α] {next : α → List α} {starts : List α}

theorem mem_found {expanded : List α} {a : α} :
    a ∈ found next starts expanded ↔ a ∈ starts ∨ ∃ b ∈ expanded, a ∈ next b := by
  simp only [found, List.mem_eraseDups, List.mem_append, List.mem_flatMap]

theorem found_prefix_append (expanded more : List α) :
    found next starts expanded <+: found next starts (expanded ++ more) := by
  rw [found, found, List.flatMap_append, ← List.append_assoc]
  exact eraseDups_prefix_append _ _

namespace BreadthFirst

variable {nodes : List α}

theorem nodup (h : BreadthFirst next starts nodes) : nodes.Nodup := by
  rw [h.nodes_eq]
  exact nodup_eraseDups _

theorem mem_of_mem_starts (h : BreadthFirst next starts nodes) {a : α} (ha : a ∈ starts) :
    a ∈ nodes := by
  rw [h.nodes_eq]
  exact mem_found.mpr (Or.inl ha)

theorem mem_of_mem_next (h : BreadthFirst next starts nodes) {a b : α} (ha : a ∈ nodes)
    (hb : b ∈ next a) : b ∈ nodes := by
  rw [h.nodes_eq]
  exact mem_found.mpr (Or.inr ⟨a, ha, hb⟩)

theorem mem_iff (h : BreadthFirst next starts nodes) {a : α} :
    a ∈ nodes ↔ Reachable next starts a := by
  constructor
  · exact h.reachable a
  · intro ha
    induction ha with
    | start hs => exact h.mem_of_mem_starts hs
    | step _ hb ih => exact h.mem_of_mem_next ih hb

/-- Expanding the first nodes finds a first part of the list. -/
theorem found_take_prefix (h : BreadthFirst next starts nodes) (k : Nat) :
    found next starts (nodes.take k) <+: nodes := by
  have hprefix : found next starts (nodes.take k) <+:
      found next starts (nodes.take k ++ nodes.drop k) := found_prefix_append _ _
  rwa [List.take_append_drop, ← h.nodes_eq] at hprefix

/-- As long as nodes are left, expanding the first ones finds one more than were expanded.
Otherwise the expanded nodes would be closed under `next`, and no other node could be reached. -/
theorem lt_length_found_take (h : BreadthFirst next starts nodes) {k : Nat}
    (hk : k < nodes.length) : k < (found next starts (nodes.take k)).length := by
  by_contra hle
  have hsub : found next starts (nodes.take k) ⊆ nodes.take k := by
    rw [List.prefix_iff_eq_take.mp (h.found_take_prefix k)]
    exact List.take_subset_take_left nodes (Nat.le_of_not_lt hle)
  have hclosed {a : α} (ha : Reachable next starts a) : a ∈ nodes.take k := by
    induction ha with
    | start hs => exact hsub (mem_found.mpr (Or.inl hs))
    | step _ hb ih => exact hsub (mem_found.mpr (Or.inr ⟨_, ih, hb⟩))
  have hmem : nodes[k] ∈ nodes.take k := hclosed (h.reachable _ (List.getElem_mem hk))
  obtain ⟨i, hi, heq⟩ := List.mem_iff_getElem.mp hmem
  rw [List.length_take] at hi
  rw [List.getElem_take] at heq
  have hik := (List.Nodup.getElem_inj_iff h.nodup).mp heq
  omega

/-- One more node than before is determined by what the nodes before it find. -/
theorem take_succ_eq (h : BreadthFirst next starts nodes) (k : Nat) :
    nodes.take (k + 1) =
      if k < (found next starts (nodes.take k)).length then
        (found next starts (nodes.take k)).take (k + 1)
      else nodes.take k := by
  have hprefix := h.found_take_prefix k
  split
  · rename_i hk
    rw [List.prefix_iff_eq_take.mp hprefix, List.take_take, Nat.min_eq_left hk]
  · rename_i hk
    have hlen : nodes.length ≤ k :=
      Nat.le_of_not_lt fun hlt => hk (h.lt_length_found_take hlt)
    rw [List.take_of_length_le hlen, List.take_of_length_le (Nat.le_succ_of_le hlen)]

end BreadthFirst

end Found

section Comparison

variable [DecidableEq α] [DecidableEq β] {next : α → List α} {starts nodes : List α} {r : α → β}

theorem map_found {expanded : List α}
    (hr : ∀ a ∈ found next starts expanded, ∀ b ∈ found next starts expanded, r a = r b → a = b) :
    (found next starts expanded).map r =
      (starts.map r ++ expanded.flatMap fun a => (next a).map r).eraseDups := by
  have hinj (a : α) (ha : a ∈ starts ++ expanded.flatMap next) (b : α)
      (hb : b ∈ starts ++ expanded.flatMap next) (hab : r a = r b) : a = b :=
    hr a (List.mem_eraseDups.mpr ha) b (List.mem_eraseDups.mpr hb) hab
  rw [found, ← eraseDups_map_of_injOn hinj, List.map_append, List.map_flatMap]

/-- Renaming the nodes of a graph renames the nodes of the list. -/
theorem BreadthFirst.map {more : β → List β} (h : BreadthFirst next starts nodes)
    (hr : ∀ a ∈ nodes, ∀ b ∈ nodes, r a = r b → a = b)
    (hnext : ∀ a ∈ nodes, more (r a) = (next a).map r) :
    BreadthFirst more (starts.map r) (nodes.map r) := by
  constructor
  · have hfound := h.nodes_eq
    calc nodes.map r
        = (found next starts nodes).map r := congrArg (List.map r) hfound
      _ = (starts.map r ++ nodes.flatMap fun a => (next a).map r).eraseDups :=
          map_found (hfound ▸ hr)
      _ = (starts.map r ++ nodes.flatMap fun a => more (r a)).eraseDups := by
          rw [List.flatMap_congr hnext]
      _ = found more (starts.map r) (nodes.map r) := by rw [found, List.flatMap_map]
  · intro c hc
    obtain ⟨a, ha, rfl⟩ := List.mem_map.mp hc
    have hreach := h.reachable a ha
    clear hc ha
    induction hreach with
    | start ha => exact .start (List.mem_map_of_mem ha)
    | @step a b ha hb ih =>
        refine .step ih ?_
        rw [hnext a (h.mem_iff.mpr ha)]
        exact List.mem_map_of_mem hb

/-- The nodes are determined by what is next to them.  If the first nodes are the same, they find
the same node next. -/
theorem BreadthFirst.eq_of_next_eq {more : α → List α} {nodes' : List α}
    (h : BreadthFirst next starts nodes) (h' : BreadthFirst more starts nodes')
    (hnext : ∀ a ∈ nodes, next a = more a) : nodes = nodes' := by
  have htake (k : Nat) : nodes.take k = nodes'.take k := by
    induction k with
    | zero => simp
    | succ k ih =>
        have hfound : found next starts (nodes.take k) = found more starts (nodes'.take k) := by
          rw [found, found, ← ih,
            List.flatMap_congr fun a ha => hnext a (List.mem_of_mem_take ha)]
        rw [h.take_succ_eq, h'.take_succ_eq, hfound, ih]
  have hall := htake (max nodes.length nodes'.length)
  rwa [List.take_of_length_le (Nat.le_max_left _ _),
    List.take_of_length_le (Nat.le_max_right _ _)] at hall

end Comparison

end Traversal

end FiniteState
