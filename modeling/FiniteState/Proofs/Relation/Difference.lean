import FiniteState.Proofs.Construction.Determinization
import FiniteState.Proofs.Traversal
import FiniteState.Relation.Difference
import Mathlib.Data.List.ProdSigma
/-!
The search for a difference is a breadth-first traversal of the configurations.  It finds a
difference exactly if some word leads to a configuration that shows one: the configurations that
are left out are empty on both sides, and there are rounds enough for all pairs of sets of states.
-/

namespace FiniteState

universe u

variable {L : Type u} [Label L]

namespace Difference

open Traversal

variable {A B : Automaton L} {aspect : Aspect} {c start : Configuration} {l : L} {w : List L}
  {seen : LookupSet Configuration} {layer : List (Configuration × List L)}

section Step

def after (A B : Automaton L) (c : Configuration) (w : List L) : Configuration :=
  (A.readFrom c.1 w, B.readFrom c.2 w)

/-- Neither automaton is in any state. -/
def Dead (c : Configuration) : Prop :=
  (∀ p, p ∉ c.1) ∧ ∀ q, q ∉ c.2

theorem after_concat (c : Configuration) (w : List L) (l : L) :
    after A B c (w ++ [l]) =
      (A.advance (after A B c w).1 l, B.advance (after A B c w).2 l) := by
  simp [after, Automaton.readFrom]

/-- The offered labels are those of the moves out of the states. -/
theorem mem_offered {A : Automaton L} {S : StateSet} :
    l ∈ A.offered S ↔ ∃ p ∈ S, ∃ q, A.Moves p (some l) q := by
  rw [Automaton.offered, OrderedSet.mem_ofList, List.mem_flatMap]
  simp only [List.mem_filterMap]
  constructor
  · intro h
    rcases h with ⟨p, hp, m, hm, hl⟩
    exact ⟨p, hp, m.state, hl ▸ hm⟩
  · intro h
    rcases h with ⟨p, hp, q, hmove⟩
    exact ⟨p, hp, ⟨some l, q⟩, hmove, rfl⟩

theorem mem_offered_of_mem_advance {A : Automaton L} {S : StateSet} {q : Nat}
    (hq : q ∈ A.advance S l) : l ∈ A.offered S := by
  obtain ⟨p, hp, r, hmove, -⟩ := Automaton.mem_advance.mp hq
  exact mem_offered.mpr ⟨p, hp, r, hmove⟩

theorem dead_advance {S T : StateSet} (h : Dead (S, T)) :
    Dead (A.advance S l, B.advance T l) := by
  constructor
  · intro q hq
    obtain ⟨p, hp, -⟩ := Automaton.mem_advance.mp hq
    exact h.1 p hp
  · intro q hq
    obtain ⟨p, hp, -⟩ := Automaton.mem_advance.mp hq
    exact h.2 p hp

def nextConfigurations (A B : Automaton L) (c : Configuration) : List Configuration :=
  (next A B (c, [])).map Prod.fst

/-- The next configurations do not depend on the word that was read. -/
theorem map_next (node : Configuration × List L) :
    (next A B node).map Prod.fst = nextConfigurations A B node.1 := by
  rw [nextConfigurations, next, next, List.map_filterMap, List.map_filterMap]
  apply List.filterMap_congr
  intro l _
  dsimp only
  split <;> rfl

/-- A label leads to a next node, unless nothing is left. -/
theorem mem_next {node later : Configuration × List L} :
    later ∈ next A B node ↔ ¬ Dead later.1 ∧
      ∃ l, ((A.advance node.1.1 l, B.advance node.1.2 l), l :: node.2) = later := by
  have hdead (d : Configuration) : (d.1.isEmpty && d.2.isEmpty) = true ↔ Dead d := by
    rw [Bool.and_eq_true, OrderedSet.isEmpty_iff, OrderedSet.isEmpty_iff, Dead]
  rw [next, List.mem_filterMap]
  constructor
  · intro h
    rcases h with ⟨l, -, hl⟩
    dsimp only at hl
    split at hl
    · cases hl
    · rename_i hne
      cases hl
      exact ⟨fun h => hne ((hdead _).mpr h), l, rfl⟩
  · intro h
    rcases h with ⟨halive, l, rfl⟩
    refine ⟨l, ?_, if_neg fun h => halive ((hdead _).mp h)⟩
    by_contra hoffered
    rw [OrderedSet.mem_toList, OrderedSet.mem_union, not_or] at hoffered
    exact halive ⟨fun q hq => hoffered.1 (mem_offered_of_mem_advance hq),
      fun q hq => hoffered.2 (mem_offered_of_mem_advance hq)⟩

theorem mem_nextConfigurations {d : Configuration} :
    d ∈ nextConfigurations A B c ↔ ¬ Dead d ∧ ∃ l, (A.advance c.1 l, B.advance c.2 l) = d := by
  rw [nextConfigurations, List.mem_map]
  constructor
  · intro h
    rcases h with ⟨node, hnode, rfl⟩
    obtain ⟨halive, l, rfl⟩ := mem_next.mp hnode
    exact ⟨halive, l, rfl⟩
  · intro h
    rcases h with ⟨halive, l, rfl⟩
    exact ⟨_, mem_next.mpr ⟨halive, l, rfl⟩, rfl⟩

omit [Label L] in
theorem fresh_eq (seen : LookupSet Configuration) (l : List (Configuration × List L)) :
    (fresh seen l).1.map Prod.fst = (Traversal.fresh seen (l.map Prod.fst)).1 ∧
      (fresh seen l).2 = (Traversal.fresh seen (l.map Prod.fst)).2 := by
  induction l generalizing seen with
  | nil => exact ⟨rfl, rfl⟩
  | cons node rest ih =>
      rw [fresh, List.map_cons, Traversal.fresh]
      by_cases h : seen.contains node.1 = true
      · rw [if_pos h, if_pos h]
        exact ih seen
      · rw [if_neg h, if_neg h]
        obtain ⟨hfirst, hseen⟩ := ih (seen.insert node.1)
        exact ⟨congrArg (node.1 :: ·) hfirst, hseen⟩

end Step

section Reach

/-- Reading a word leads to a configuration that the traversal reaches, unless nothing is left. -/
theorem reachable_after (hw : ¬ Dead (after A B start w)) :
    Reachable (nextConfigurations A B) [start] (after A B start w) := by
  induction w using List.reverseRecOn with
  | nil => exact .start (List.mem_singleton_self _)
  | append_singleton w l ih =>
      rw [after_concat] at hw ⊢
      exact .step (ih fun hdead => hw (dead_advance hdead))
          (mem_nextConfigurations.mpr ⟨hw, l, rfl⟩)

theorem exists_word_of_reachable (h : Reachable (nextConfigurations A B) [start] c) :
    ∃ w, after A B start w = c := by
  induction h with
  | start hc => exact ⟨[], (List.mem_singleton.mp hc).symm⟩
  | step _ hd ih =>
      obtain ⟨w, rfl⟩ := ih
      obtain ⟨-, l, rfl⟩ := mem_nextConfigurations.mp hd
      exact ⟨w ++ [l], after_concat _ w l⟩

theorem witness?_eq_none_of_dead (h : Dead c) : witness? A B aspect c = none := by
  cases aspect with
  | language =>
      have hleft : A.meetsTerminal c.1 = false :=
        Bool.eq_false_iff.mpr fun hmeets =>
          (Automaton.meetsTerminal_iff.mp hmeets).elim fun p hp => h.1 p hp.1
      have hright : B.meetsTerminal c.2 = false :=
        Bool.eq_false_iff.mpr fun hmeets =>
          (Automaton.meetsTerminal_iff.mp hmeets).elim fun q hq => h.2 q hq.1
      rw [witness?, hleft, hright]
      rfl
  | traces =>
      have hleft : c.1 = ∅ := OrderedSet.eq_of_mem_iff fun p => iff_of_false (h.1 p) (by simp)
      have hright : c.2 = ∅ := OrderedSet.eq_of_mem_iff fun q => iff_of_false (h.2 q) (by simp)
      rw [witness?, hleft, hright]
      rfl

/-- No configuration that is reached shows a difference exactly if no word leads to one that
does. -/
theorem forall_reachable_iff :
    (∀ c, Reachable (nextConfigurations A B) [start] c → witness? A B aspect c = none) ↔
      ∀ w, witness? A B aspect (after A B start w) = none := by
  constructor
  · intro h w
    by_cases hdead : Dead (after A B start w)
    · exact witness?_eq_none_of_dead hdead
    · exact h _ (reachable_after hdead)
  · intro h c hc
    obtain ⟨w, rfl⟩ := exists_word_of_reachable hc
    exact h w

end Reach

section Search

variable {expanded candidates : List Configuration}

/-- The configurations of the next layer, and what has been seen then. -/
theorem progress_round
    (h : Progress (nextConfigurations A B) [start] expanded (layer.map Prod.fst) seen) :
    Progress (nextConfigurations A B) [start] (expanded ++ layer.map Prod.fst)
      ((fresh seen (layer.flatMap (next A B))).1.map Prod.fst)
      (fresh seen (layer.flatMap (next A B))).2 := by
  have hround := h.round
  have hmap : (layer.map Prod.fst).flatMap (nextConfigurations A B) =
      (layer.flatMap (next A B)).map Prod.fst := by
    rw [List.map_flatMap, List.flatMap_map]
    exact List.flatMap_congr fun node _ => (map_next node).symm
  obtain ⟨hfirst, hseen⟩ := fresh_eq seen (layer.flatMap (next A B))
  rwa [hmap, ← hfirst, ← hseen] at hround

/-- Before the first round only the starting configuration is known. -/
theorem progress_start (start : Configuration) :
    Progress (nextConfigurations A B) [start] [] [start] (LookupSet.ofList [start]) :=
  ⟨by simp [found, List.eraseDups_cons], fun c => by simp⟩

/-- A search with rounds enough for all candidates finds nothing exactly if no configuration that
can be reached shows a difference. -/
theorem search_eq_none_iff {rounds : Nat}
    (hprogress : Progress (nextConfigurations A B) [start] expanded (layer.map Prod.fst) seen)
    (hreach : ∀ c ∈ expanded ++ layer.map Prod.fst, Reachable (nextConfigurations A B) [start] c)
    (hclean : ∀ c ∈ expanded, witness? A B aspect c = none)
    (hcandidates : ∀ c, Reachable (nextConfigurations A B) [start] c → c ∈ candidates)
    (hrounds : candidates.length < rounds + expanded.length) :
    search A B aspect rounds seen layer = none ↔
      ∀ c, Reachable (nextConfigurations A B) [start] c → witness? A B aspect c = none := by
  induction rounds generalizing expanded layer seen with
  | zero =>
      have hlength := hprogress.length_le fun c hc => hcandidates c (hreach c hc)
      omega
  | succ rounds ih =>
      rw [search]
      by_cases hempty : layer.isEmpty = true
      · -- Everything that can be reached has been expanded.
        have hlayer : layer.map Prod.fst = [] := by rw [List.isEmpty_iff.mp hempty, List.map_nil]
        have hall : BreadthFirst (nextConfigurations A B) [start] expanded :=
          ⟨hprogress.expanded_eq hlayer, fun c hc => hreach c (List.mem_append_left _ hc)⟩
        exact iff_of_true (if_pos hempty) fun c hc => hclean c (hall.mem_iff.mpr hc)
      · rw [if_neg hempty]
        have hnode {node : Configuration × List L} (h : node ∈ layer) :
            Reachable (nextConfigurations A B) [start] node.1 :=
          hreach _ (List.mem_append_right _ (List.mem_map_of_mem h))
        split
        · rename_i w hfound
          obtain ⟨node, hmem, hsome⟩ := List.exists_of_findSome?_eq_some hfound
          obtain ⟨v, hv, -⟩ := Option.map_eq_some_iff.mp hsome
          apply iff_of_false (by simp)
          intro hnone
          rw [hnone node.1 (hnode hmem)] at hv
          cases hv
        · rename_i hfound
          have hlayer : ∀ c ∈ layer.map Prod.fst, witness? A B aspect c = none := by
            intro c hc
            obtain ⟨node, hmem, rfl⟩ := List.mem_map.mp hc
            simpa using List.findSome?_eq_none_iff.mp hfound node hmem
          have hpos : 0 < layer.length :=
            List.length_pos_iff.mpr fun hnil => hempty (List.isEmpty_iff.mpr hnil)
          have hround := progress_round hprogress
          apply ih hround
          · exact hround.forall_known (fun c hc => .start hc) fun c hc d hd => .step (hreach c hc) hd
          · exact fun c hc => (List.mem_append.mp hc).elim (hclean c) (hlayer c)
          · rw [List.length_append, List.length_map]
            omega

/-- The search finds nothing exactly if no word leads to a difference. -/
theorem first?_eq_none_iff {states others : List Nat} :
    first? A B aspect states others = none ↔
      ∀ w, witness? A B aspect (after A B (A.closure states, B.closure others) w) = none := by
  have hcandidates (c : Configuration)
      (hc : Reachable (nextConfigurations A B) [(A.closure states, B.closure others)] c) :
      c ∈ A.stateSets ×ˢ B.stateSets := by
    cases hc with
    | start hstart =>
        rw [List.mem_singleton.mp hstart]
        exact List.mem_product.mpr
          ⟨Automaton.closure_mem_stateSets _, Automaton.closure_mem_stateSets _⟩
    | step _ hnext =>
        obtain ⟨-, l, rfl⟩ := mem_nextConfigurations.mp hnext
        exact List.mem_product.mpr
          ⟨Automaton.closure_mem_stateSets _, Automaton.closure_mem_stateSets _⟩
  rw [first?, ← forall_reachable_iff]
  refine search_eq_none_iff (progress_start _) ?_ (by simp) hcandidates ?_
  · exact fun c hc => .start hc
  · rw [List.length_product, Automaton.length_stateSets, Automaton.length_stateSets]
    simp

end Search

end Difference

end FiniteState
