import FiniteState.Proofs.BreadthFirst
import FiniteState.Traversal
/-!
The traversal of a finite graph is a breadth-first list of the nodes that can be reached.  The
number of rounds is no restriction: if all reachable nodes occur in a list, as many rounds as the
list is long are enough.
-/

namespace FiniteState

universe u

variable {α : Type u} [Ordered α] [DecidableEq α]

namespace Traversal

/-- The fresh nodes of a list are its first occurrences that were not seen before. -/
theorem fresh_fst (seen : LookupSet α) (l : List α) :
    (fresh seen l).1 = (l.filter fun a => !seen.contains a).eraseDups := by
  induction l generalizing seen with
  | nil => rfl
  | cons a rest ih =>
      rw [fresh]
      by_cases ha : seen.contains a = true
      · rw [if_pos ha, ih, List.filter_cons_of_neg (by simp [ha])]
      · rw [if_neg ha, List.filter_cons_of_pos (by simp [ha]), List.eraseDups_cons]
        refine congrArg (a :: ·) ((ih _).trans (congrArg List.eraseDups ?_))
        rw [List.filter_filter]
        apply List.filter_congr
        intro b _
        have hb : (seen.insert a).contains b = (b == a || seen.contains b) := by
          rw [Bool.eq_iff_iff, Std.ExtTreeSet.contains_iff_mem, LookupSet.mem_insert_iff]
          simp
        rw [hb, Bool.not_or]

omit [DecidableEq α] in
theorem mem_fresh_snd {seen : LookupSet α} {l : List α} {a : α} :
    a ∈ (fresh seen l).2 ↔ a ∈ seen ∨ a ∈ l := by
  induction l generalizing seen with
  | nil => simp [fresh]
  | cons b rest ih =>
      rw [fresh]
      by_cases hb : seen.contains b = true
      · rw [if_pos hb, ih, List.mem_cons]
        have hmem : b ∈ seen := hb
        constructor
        · exact fun h => h.imp_right Or.inr
        · intro h
          rcases h with h | rfl | h
          · exact Or.inl h
          · exact Or.inl hmem
          · exact Or.inr h
      · rw [if_neg hb, List.mem_cons]
        apply Iff.trans ih
        rw [LookupSet.mem_insert_iff]
        exact or_assoc.trans or_left_comm

/-- Some nodes have been expanded and the others that are known wait in the frontier. -/
structure Progress (next : α → List α) (starts expanded frontier : List α) (seen : LookupSet α) :
    Prop where
  known_eq : expanded ++ frontier = found next starts expanded
  mem_seen : ∀ a, a ∈ seen ↔ a ∈ expanded ++ frontier

variable {next : α → List α} {starts expanded frontier : List α} {seen : LookupSet α}

/-- What holds of the starting nodes and of the neighbours of the expanded ones holds of all known
nodes. -/
theorem Progress.forall_known (h : Progress next starts expanded frontier seen) {p : α → Prop}
    (hstarts : ∀ a ∈ starts, p a) (hnext : ∀ a ∈ expanded, ∀ b ∈ next a, p b) :
    ∀ a ∈ expanded ++ frontier, p a := by
  intro a ha
  rw [h.known_eq, mem_found] at ha
  rcases ha with ha | ⟨b, hb, ha⟩
  · exact hstarts a ha
  · exact hnext b hb a ha

/-- There are not more known nodes than candidates, as no node is known twice. -/
theorem Progress.length_le (h : Progress next starts expanded frontier seen) {nodes : List α}
    (hsub : ∀ a ∈ expanded ++ frontier, a ∈ nodes) :
    expanded.length + frontier.length ≤ nodes.length := by
  have hnodup : (expanded ++ frontier).Nodup := by
    rw [h.known_eq]
    exact nodup_eraseDups _
  rw [← List.length_append]
  exact (List.subperm_of_subset hnodup hsub).length_le

/-- When no node waits, expanding finds nothing more. -/
theorem Progress.expanded_eq (h : Progress next starts expanded frontier seen)
    (hfrontier : frontier = []) : expanded = found next starts expanded := by
  have hknown := h.known_eq
  rwa [hfrontier, List.append_nil] at hknown

/-- One round expands the frontier, and the nodes that are found for the first time are the next
frontier. -/
theorem Progress.round (h : Progress next starts expanded frontier seen) :
    Progress next starts (expanded ++ frontier) (fresh seen (frontier.flatMap next)).1
      (fresh seen (frontier.flatMap next)).2 := by
  have hmem (a : α) : a ∈ seen ↔ a ∈ starts ++ expanded.flatMap next := by
    rw [h.mem_seen, h.known_eq, found, List.mem_eraseDups]
  have hfresh : (fresh seen (frontier.flatMap next)).1 =
      ((frontier.flatMap next).removeAll (starts ++ expanded.flatMap next)).eraseDups := by
    rw [fresh_fst]
    refine congrArg List.eraseDups (List.filter_congr fun a _ => ?_)
    refine congrArg (! ·) (Bool.eq_iff_iff.mpr ?_)
    rw [Std.ExtTreeSet.contains_iff_mem, List.elem_iff]
    exact hmem a
  have hknown : expanded ++ frontier ++ (fresh seen (frontier.flatMap next)).1 =
      found next starts (expanded ++ frontier) := by
    calc expanded ++ frontier ++ (fresh seen (frontier.flatMap next)).1
        = (starts ++ expanded.flatMap next ++ frontier.flatMap next).eraseDups := by
          rw [hfresh, h.known_eq, found, ← List.eraseDups_append]
      _ = found next starts (expanded ++ frontier) := by
          rw [found, List.flatMap_append, List.append_assoc]
  refine ⟨hknown, fun a => ?_⟩
  rw [hknown, mem_fresh_snd, hmem, found, List.mem_eraseDups, List.flatMap_append,
    ← List.append_assoc]
  exact List.mem_append.symm

/-- A traversal in progress ends with all nodes expanded, if there are enough rounds for the nodes
that are not expanded yet. -/
theorem Progress.expand_visit {nodes : List α}
    (h : Progress next starts expanded frontier seen)
    (hstarts : ∀ a ∈ starts, a ∈ nodes) (hclosed : ∀ a ∈ nodes, ∀ b ∈ next a, b ∈ nodes)
    (hsub : ∀ a ∈ expanded ++ frontier, a ∈ nodes) (rounds : Nat)
    (hrounds : nodes.length ≤ rounds + expanded.length) :
    expanded ++ visit next rounds seen frontier =
      found next starts (expanded ++ visit next rounds seen frontier) := by
  induction rounds generalizing expanded frontier seen with
  | zero =>
      have hlength := h.length_le hsub
      have hfrontier : frontier = [] := List.eq_nil_of_length_eq_zero (by omega)
      rw [visit, hfrontier, List.append_nil, ← h.expanded_eq hfrontier]
  | succ rounds ih =>
      rw [visit]
      by_cases hempty : frontier.isEmpty = true
      · rw [if_pos hempty, List.append_nil, ← h.expanded_eq (List.isEmpty_iff.mp hempty)]
      · have hpos : 0 < frontier.length := by
          rw [List.length_pos_iff]
          exact fun hnil => hempty (List.isEmpty_iff.mpr hnil)
        have hround := h.round
        rw [if_neg hempty, ← List.append_assoc]
        apply ih hround
        · exact hround.forall_known hstarts fun a ha => hclosed a (hsub a ha)
        · rw [List.length_append]
          omega

theorem reachable_of_mem_visit {rounds : Nat}
    (hfrontier : ∀ a ∈ frontier, Reachable next starts a) :
    ∀ a ∈ visit next rounds seen frontier, Reachable next starts a := by
  induction rounds generalizing frontier seen with
  | zero => exact hfrontier
  | succ rounds ih =>
      intro a ha
      rw [visit] at ha
      split at ha
      · exact absurd ha List.not_mem_nil
      · rcases List.mem_append.mp ha with ha | ha
        · exact hfrontier a ha
        · refine ih (fun b hb => ?_) a ha
          rw [fresh_fst, List.mem_eraseDups, List.mem_filter, List.mem_flatMap] at hb
          obtain ⟨⟨c, hc, hb⟩, -⟩ := hb
          exact Reachable.step (hfrontier c hc) hb

end Traversal

open Traversal

/-- If all nodes that can be reached occur in a list that is not longer than the bound, the
traversal gives the nodes in breadth-first order. -/
theorem breadthFirst_reach {next : α → List α} {starts nodes : List α} {bound : Nat}
    (hstarts : ∀ a ∈ starts, a ∈ nodes) (hclosed : ∀ a ∈ nodes, ∀ b ∈ next a, b ∈ nodes)
    (hbound : nodes.length ≤ bound) : BreadthFirst next starts (reach next bound starts) := by
  have hfirst : (fresh ∅ starts).1 = starts.eraseDups := by
    rw [fresh_fst]
    refine congrArg List.eraseDups (List.filter_eq_self.mpr fun a _ => ?_)
    simp
  have hprogress : Progress next starts [] (fresh ∅ starts).1 (fresh ∅ starts).2 := by
    refine ⟨by rw [hfirst, found, List.flatMap_nil, List.append_nil, List.nil_append], fun a => ?_⟩
    rw [mem_fresh_snd, hfirst, List.nil_append, List.mem_eraseDups]
    simp
  have hmem (a : α) (ha : a ∈ (fresh ∅ starts).1) : a ∈ starts := by
    rwa [hfirst, List.mem_eraseDups] at ha
  constructor
  · exact hprogress.expand_visit hstarts hclosed (fun a ha => hstarts a (hmem a ha)) bound hbound
  · exact reachable_of_mem_visit fun a ha => Reachable.start (hmem a ha)

end FiniteState
