import FiniteState.Proofs.Relation.Difference
import Mathlib.Data.List.Shortlex
/-!
The difference that the search finds is the first one in length-lexicographic order.  A layer holds
its configurations in the lexicographic order of the words that lead to them, and for every word of
the length of the layer, unless nothing is left, it holds the same configuration with a word that
does not come later, or the configuration was expanded before.  So what a word shows is shown by
the first node that shows anything, and with no later word.
-/

namespace FiniteState

universe u

/-- The word has the property, and it comes before all others that have it: it is the shortest one
and, among those of its length, the first one in lexicographic order. -/
structure IsFirst {L : Type u} [Ordered L] (p : List L → Prop) (w : List L) : Prop where
  holds : p w
  first : ∀ v, p v → v ≠ w → List.Shortlex Precedes w v

theorem IsFirst.congr {L : Type u} [Ordered L] {p q : List L → Prop} {w : List L}
    (h : IsFirst p w) (hpq : ∀ v, p v ↔ q v) : IsFirst q w :=
  ⟨(hpq w).mp h.holds, fun v hv => h.first v ((hpq v).mpr hv)⟩

section Order

variable {L : Type u} [Ordered L] {u v w : List L}

/-- Of words with the same length, the order is decided before what follows them. -/
theorem lex_append (h : List.Lex Precedes u v) (hlength : u.length = v.length) (s t : List L) :
    List.Lex Precedes (u ++ s) (v ++ t) := by
  induction h with
  | nil => simp at hlength
  | rel hab => exact .rel hab
  | cons _ ih => exact .cons (ih (Nat.succ.inj hlength))

/-- The word is the other one, or comes before it in lexicographic order. -/
def NotAfter (v w : List L) : Prop :=
  v = w ∨ List.Lex Precedes v w

theorem NotAfter.trans (h : NotAfter u v) (h' : NotAfter v w) : NotAfter u w := by
  rcases h with rfl | h
  · exact h'
  · rcases h' with rfl | h'
    · exact Or.inr h
    · exact Or.inr (List.lex_trans Precedes.trans h h')

theorem NotAfter.concat (h : NotAfter v w) (hlength : v.length = w.length) (l : L) :
    NotAfter (v ++ [l]) (w ++ [l]) :=
  h.imp (congrArg (· ++ [l])) fun h => lex_append h hlength [l] [l]

end Order

variable {L : Type u} [Label L]

namespace Difference

open Traversal

variable {A B : Automaton L} {aspect : Aspect} {c start : Configuration} {v w x : List L}
  {l : L} {n : Nat} {seen : LookupSet Configuration} {expanded : List Configuration}
  {layer : List (Configuration × List L)}

section Shown

/-- The configuration shows a difference on the continuation: a terminal state on one side only, or
a label that is offered on one side only. -/
def Shows (A B : Automaton L) (aspect : Aspect) (c : Configuration) (x : List L) : Prop :=
  match aspect with
  | .language => x = [] ∧ A.meetsTerminal c.1 ≠ B.meetsTerminal c.2
  | .traces => ∃ l ∈ (A.offered c.1).symmetricDifference (B.offered c.2), x = [l]

/-- The word shows a difference at its end. -/
def Differs (A B : Automaton L) (aspect : Aspect) (start : Configuration) (w : List L) : Prop :=
  ∃ v x, w = v ++ x ∧ Shows A B aspect (after A B start v) x

/-- No continuation on which a difference shows is longer than another one. -/
theorem length_eq_of_shows {d : Configuration} {y : List L} (hx : Shows A B aspect c x)
    (hy : Shows A B aspect d y) : x.length = y.length := by
  cases aspect with
  | language => rw [hx.1, hy.1]
  | traces =>
      obtain ⟨l, -, rfl⟩ := hx
      obtain ⟨m, -, rfl⟩ := hy
      rfl

theorem not_shows_of_witness?_eq_none (h : witness? A B aspect c = none) :
    ¬ Shows A B aspect c x := by
  cases aspect with
  | language =>
      rw [witness?, ite_eq_right_iff] at h
      exact fun hx => absurd (h (bne_iff_ne.mpr hx.2)) (by simp)
  | traces =>
      rw [witness?, Option.map_eq_none_iff, List.head?_eq_none_iff] at h
      rintro ⟨l, hl, -⟩
      rw [← OrderedSet.mem_toList, h] at hl
      exact absurd hl List.not_mem_nil

/-- The witness of a configuration is the first continuation that shows a difference. -/
theorem shows_of_witness?_eq_some (h : witness? A B aspect c = some x) :
    Shows A B aspect c x ∧ ∀ y, Shows A B aspect c y → NotAfter x y := by
  cases aspect with
  | language =>
      rw [witness?, Option.ite_none_right_eq_some] at h
      obtain ⟨hne, hx⟩ := h
      cases hx
      exact ⟨⟨rfl, bne_iff_ne.mp hne⟩, fun y hy => Or.inl hy.1.symm⟩
  | traces =>
      obtain ⟨l, hhead, rfl⟩ := Option.map_eq_some_iff.mp h
      obtain ⟨rest, hlist⟩ := List.head?_eq_some_iff.mp hhead
      have hincreasing :=
        ((A.offered c.1).symmetricDifference (B.offered c.2)).increasing
      rw [hlist] at hincreasing
      refine ⟨⟨l, ?_, rfl⟩, ?_⟩
      · rw [← OrderedSet.mem_toList, hlist]
        exact List.mem_cons_self
      · rintro _ ⟨m, hm, rfl⟩
        rw [← OrderedSet.mem_toList, hlist] at hm
        rcases List.mem_cons.mp hm with rfl | hm
        · exact Or.inl rfl
        · exact Or.inr (.rel ((List.pairwise_cons.mp hincreasing).1 m hm))

/-- The search finds nothing exactly if no word shows a difference. -/
theorem first?_eq_none_iff_not_differs {states others : List Nat} :
    first? A B aspect states others = none ↔
      ∀ w, ¬ Differs A B aspect (A.closure states, B.closure others) w := by
  rw [first?_eq_none_iff]
  constructor
  · rintro h _ ⟨v, x, rfl, hx⟩
    exact not_shows_of_witness?_eq_none (h v) hx
  · intro h v
    refine Option.eq_none_iff_forall_ne_some.mpr fun x hwitness => ?_
    exact h _ ⟨v, x, rfl, (shows_of_witness?_eq_some hwitness).1⟩

end Shown

section Layers

omit [Label L] in
theorem fresh_sublist (seen : LookupSet Configuration) (l : List (Configuration × List L)) :
    (fresh seen l).1.Sublist l := by
  induction l generalizing seen with
  | nil => exact List.Sublist.refl _
  | cons node rest ih =>
      rw [fresh]
      split
      · exact (ih seen).cons node
      · exact (ih _).cons_cons node

omit [Label L] in
/-- A configuration was seen before, or its first node is kept. -/
theorem exists_fresh {R : Configuration × List L → Configuration × List L → Prop}
    (seen : LookupSet Configuration) {l : List (Configuration × List L)} (hl : l.Pairwise R)
    {node : Configuration × List L} (hnode : node ∈ l) : node.1 ∈ seen ∨
      ∃ kept ∈ (fresh seen l).1, kept.1 = node.1 ∧ (kept = node ∨ R kept node) := by
  induction l generalizing seen with
  | nil => exact absurd hnode List.not_mem_nil
  | cons first rest ih =>
      obtain ⟨hfirst, hrest⟩ := List.pairwise_cons.mp hl
      rw [fresh]
      by_cases hseen : seen.contains first.1 = true
      · rw [if_pos hseen]
        rcases List.mem_cons.mp hnode with rfl | hnode
        · exact Or.inl hseen
        · exact ih seen hrest hnode
      · rw [if_neg hseen]
        rcases List.mem_cons.mp hnode with rfl | hnode
        · exact Or.inr ⟨node, List.mem_cons_self, rfl, Or.inl rfl⟩
        · rcases ih (seen.insert first.1) hrest hnode with hknown | ⟨kept, hkept, hfresh⟩
          · rcases LookupSet.mem_insert_iff.mp hknown with heq | hknown
            · exact Or.inr ⟨first, List.mem_cons_self, heq.symm, Or.inr (hfirst node hnode)⟩
            · exact Or.inl hknown
          · exact Or.inr ⟨kept, List.mem_cons_of_mem _ hkept, hfresh⟩

/-- The search before the round that looks at the words of length `n`. -/
structure Layered (A B : Automaton L) (start : Configuration) (n : Nat)
    (expanded : List Configuration) (layer : List (Configuration × List L)) : Prop where
  length_eq : ∀ node ∈ layer, node.2.length = n
  after_eq : ∀ node ∈ layer, after A B start node.2.reverse = node.1
  increasing : layer.Pairwise fun node later =>
    List.Lex Precedes node.2.reverse later.2.reverse
  shorter : ∀ v, v.length < n → ¬ Dead (after A B start v) → after A B start v ∈ expanded
  waiting : ∀ v, v.length = n → ¬ Dead (after A B start v) → after A B start v ∈ expanded ∨
    ∃ node ∈ layer, node.1 = after A B start v ∧ NotAfter node.2.reverse v

theorem layered_start (start : Configuration) : Layered A B start 0 [] [(start, [])] where
  length_eq := by simp
  after_eq := by simp [after, Automaton.readFrom]
  increasing := List.pairwise_singleton _ _
  shorter v hv := absurd hv (Nat.not_lt_zero _)
  waiting v hv _ := by
    cases List.eq_nil_of_length_eq_zero hv
    exact Or.inr ⟨(start, []), List.mem_singleton_self _, rfl, Or.inl rfl⟩

/-- The nodes behind one node are in the order of their labels. -/
theorem pairwise_next (node : Configuration × List L) :
    (next A B node).Pairwise fun first later =>
      List.Lex Precedes first.2.reverse later.2.reverse := by
  rw [next, List.pairwise_filterMap]
  refine (OrderedSet.increasing _).imp fun {l m} hlm first hfirst later hlater => ?_
  dsimp only at hfirst hlater
  split at hfirst
  · cases hfirst
  · split at hlater
    · cases hlater
    · cases hfirst
      cases hlater
      rw [List.reverse_cons, List.reverse_cons]
      exact List.Lex.append_left Precedes (.rel hlm) _

/-- The nodes behind a layer are in lexicographic order, as those of the layer are. -/
theorem Layered.pairwise_flatMap_next (h : Layered A B start n expanded layer) :
    (layer.flatMap (next A B)).Pairwise fun first later =>
      List.Lex Precedes first.2.reverse later.2.reverse := by
  rw [List.pairwise_flatMap]
  refine ⟨fun node _ => pairwise_next node, ?_⟩
  refine h.increasing.imp_of_mem fun {node other} hnode hother hlex first hfirst later hlater => ?_
  obtain ⟨-, l, rfl⟩ := mem_next.mp hfirst
  obtain ⟨-, m, rfl⟩ := mem_next.mp hlater
  rw [List.reverse_cons, List.reverse_cons]
  refine lex_append hlex ?_ [l] [m]
  rw [List.length_reverse, List.length_reverse, h.length_eq node hnode, h.length_eq other hother]

/-- Where a longer word leads to is next to an expanded configuration, or to a node of the layer
that does not come later. -/
theorem Layered.exists_next (h : Layered A B start n expanded layer) (hv : v.length = n)
    (halive : ¬ Dead (after A B start (v ++ [l]))) :
    (∃ c ∈ expanded, after A B start (v ++ [l]) ∈ nextConfigurations A B c) ∨
      ∃ node ∈ layer.flatMap (next A B), node.1 = after A B start (v ++ [l]) ∧
        NotAfter node.2.reverse (v ++ [l]) := by
  rw [after_concat] at *
  rcases h.waiting v hv fun hdead => halive (dead_advance hdead) with
    hexpanded | ⟨node, hmem, hnode, hle⟩
  · exact Or.inl ⟨_, hexpanded, mem_nextConfigurations.mpr ⟨halive, l, rfl⟩⟩
  · rw [← hnode] at halive ⊢
    refine Or.inr ⟨_, List.mem_flatMap.mpr ⟨node, hmem, mem_next.mpr ⟨halive, l, rfl⟩⟩, rfl, ?_⟩
    rw [List.reverse_cons]
    refine hle.concat ?_ l
    rw [List.length_reverse, h.length_eq node hmem, hv]

/-- One more round looks at the words that are one label longer. -/
theorem Layered.round (h : Layered A B start n expanded layer)
    (hprogress : Progress (nextConfigurations A B) [start] expanded (layer.map Prod.fst) seen) :
    Layered A B start (n + 1) (expanded ++ layer.map Prod.fst)
      (fresh seen (layer.flatMap (next A B))).1 := by
  have hnode {node : Configuration × List L}
      (hmem : node ∈ (fresh seen (layer.flatMap (next A B))).1) :
      ∃ before ∈ layer, node ∈ next A B before :=
    List.mem_flatMap.mp ((fresh_sublist seen _).mem hmem)
  constructor
  · intro node hmem
    obtain ⟨before, hbefore, hnext⟩ := hnode hmem
    obtain ⟨-, l, rfl⟩ := mem_next.mp hnext
    exact congrArg Nat.succ (h.length_eq before hbefore)
  · intro node hmem
    obtain ⟨before, hbefore, hnext⟩ := hnode hmem
    obtain ⟨-, l, rfl⟩ := mem_next.mp hnext
    rw [List.reverse_cons, after_concat, h.after_eq before hbefore]
  · exact h.pairwise_flatMap_next.sublist (fresh_sublist seen _)
  · intro v hv halive
    rw [List.mem_append]
    rcases Nat.lt_succ_iff_lt_or_eq.mp hv with hlt | heq
    · exact Or.inl (h.shorter v hlt halive)
    · refine (h.waiting v heq halive).imp_right ?_
      rintro ⟨node, hmem, hnode, -⟩
      exact hnode ▸ List.mem_map_of_mem hmem
  · intro v hv halive
    obtain ⟨v, l, rfl⟩ := List.eq_nil_or_concat' v |>.resolve_left (by rintro rfl; simp at hv)
    rcases h.exists_next (by simpa using hv) halive with
      ⟨c, hc, hnext⟩ | ⟨node, hmem, hconfiguration, hle⟩
    · -- What is next to an expanded configuration is known.
      refine Or.inl ?_
      rw [hprogress.known_eq, mem_found]
      exact Or.inr ⟨c, hc, hnext⟩
    · rw [← hconfiguration]
      refine (exists_fresh seen h.pairwise_flatMap_next hmem).imp
        (hprogress.mem_seen node.1).mp ?_
      rintro ⟨kept, hkept, heq, rfl | hlex⟩
      · exact ⟨kept, hkept, heq, hle⟩
      · exact ⟨kept, hkept, heq, NotAfter.trans (Or.inr hlex) hle⟩

end Layers

section First

/-- The nodes in front of the first one that shows something show nothing, so it does not come later
than a word that leads to a configuration that shows something. -/
theorem Layered.notAfter {before rest : List (Configuration × List L)}
    {node : Configuration × List L}
    (h : Layered A B start n expanded (before ++ node :: rest))
    (hclean : ∀ c ∈ expanded, witness? A B aspect c = none)
    (hbefore : ∀ other ∈ before, witness? A B aspect other.1 = none) (hv : v.length = n)
    (hwitness : witness? A B aspect (after A B start v) ≠ none) : NotAfter node.2.reverse v := by
  rcases h.waiting v hv fun hdead => hwitness (witness?_eq_none_of_dead hdead) with
    hexpanded | ⟨other, hother, hconfiguration, hle⟩
  · exact absurd (hclean _ hexpanded) hwitness
  · rcases List.mem_append.mp hother with hmem | hmem
    · rw [← hconfiguration] at hwitness
      exact absurd (hbefore other hmem) hwitness
    · refine NotAfter.trans ?_ hle
      rcases List.mem_cons.mp hmem with rfl | hmem
      · exact Or.inl rfl
      · have hincreasing := (List.pairwise_append.mp h.increasing).2.1
        exact Or.inr ((List.pairwise_cons.mp hincreasing).1 other hmem)

/-- The first node of a layer that shows a difference gives the first word that does. -/
theorem Layered.isFirst (h : Layered A B start n expanded layer)
    (hclean : ∀ c ∈ expanded, witness? A B aspect c = none)
    (hfound : layer.findSome? (fun node =>
      (witness? A B aspect node.1).map fun x => node.2.reverse ++ x) = some w) :
    IsFirst (Differs A B aspect start) w := by
  obtain ⟨before, node, rest, rfl, hsome, hbefore⟩ := List.findSome?_eq_some_iff.mp hfound
  obtain ⟨x, hwitness, rfl⟩ := Option.map_eq_some_iff.mp hsome
  obtain ⟨hshows, hleast⟩ := shows_of_witness?_eq_some hwitness
  have hnode : node ∈ before ++ node :: rest := by simp
  have hlength : node.2.reverse.length = n := by
    rw [List.length_reverse, h.length_eq node hnode]
  refine ⟨⟨node.2.reverse, x, rfl, by rwa [h.after_eq node hnode]⟩, ?_⟩
  rintro _ ⟨v, y, rfl, hy⟩ hne
  have hsame : x.length = y.length := length_eq_of_shows hshows hy
  have hshown : witness? A B aspect (after A B start v) ≠ none := fun hnone =>
    not_shows_of_witness?_eq_none hnone hy
  rw [List.shortlex_def, List.length_append, List.length_append, hlength, hsame]
  rcases Nat.lt_trichotomy v.length n with hlt | heq | hgt
  · exact absurd (hclean _ (h.shorter v hlt fun hdead =>
      hshown (witness?_eq_none_of_dead hdead))) hshown
  · refine Or.inr ⟨by rw [heq], ?_⟩
    rcases h.notAfter hclean (fun other hother => Option.map_eq_none_iff.mp (hbefore other hother))
      heq hshown with rfl | hlex
    · -- The same configuration shows something on both continuations.
      rw [h.after_eq node hnode] at hy
      rcases hleast y hy with rfl | hlex
      · exact absurd rfl hne
      · exact List.Lex.append_left Precedes hlex _
    · exact lex_append hlex (hlength.trans heq.symm) x y
  · exact Or.inl (by omega)

/-- What the search finds is the first difference. -/
theorem isFirst_of_search {rounds : Nat} (hlayered : Layered A B start n expanded layer)
    (hprogress : Progress (nextConfigurations A B) [start] expanded (layer.map Prod.fst) seen)
    (hclean : ∀ c ∈ expanded, witness? A B aspect c = none)
    (h : search A B aspect rounds seen layer = some w) :
    IsFirst (Differs A B aspect start) w := by
  induction rounds generalizing n expanded layer seen with
  | zero => cases h
  | succ rounds ih =>
      rw [search] at h
      split at h
      · cases h
      · split at h
        · rename_i hfound
          cases h
          exact hlayered.isFirst hclean hfound
        · rename_i hfound
          refine ih (hlayered.round hprogress) (progress_round hprogress) ?_ h
          intro c hc
          rcases List.mem_append.mp hc with hc | hc
          · exact hclean c hc
          · obtain ⟨node, hmem, rfl⟩ := List.mem_map.mp hc
            exact Option.map_eq_none_iff.mp (List.findSome?_eq_none_iff.mp hfound node hmem)

/-- What is found to be the first difference is the first word that shows one. -/
theorem isFirst_of_first? {states others : List Nat}
    (h : first? A B aspect states others = some w) :
    IsFirst (Differs A B aspect (A.closure states, B.closure others)) w :=
  isFirst_of_search (layered_start _) (progress_start _) (by simp) h

end First

end Difference

end FiniteState
