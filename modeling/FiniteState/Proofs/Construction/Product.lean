import FiniteState.Construction.Product
import FiniteState.Proofs.Automaton.Useful
import FiniteState.Proofs.Construction.Unfolding
import Mathlib.Data.List.ProdSigma
/-!
The languages of products.  The moves of a product are those of two automata side by side, where the
synchronization says which labels are read alone and which together.  So a product accepts the words
that are merged from a word of each automaton; interleavings, words with given projections and
common words are the special cases.
-/

namespace FiniteState

universe u

variable {L : Type u}

namespace Synchronization

/-- The word `w` is read by one automaton reading `u` and another one reading `v`. -/
inductive Merges (s : Synchronization L) : List L → List L → List L → Prop where
  | nil : Merges s [] [] []
  | left {l : L} {u v w : List L} : s.synchronizes l = false → Merges s u v w →
      Merges s (l :: u) v (l :: w)
  | right {r : L} {u v w : List L} : s.synchronizes r = false → Merges s u v w →
      Merges s u (r :: v) (r :: w)
  | joint {l r j : L} {u v w : List L} : s.joint l r = some j → Merges s u v w →
      Merges s (l :: u) (r :: v) (j :: w)

/-- No label synchronizes. -/
def free : Synchronization L where
  synchronizes _ := false
  joint _ _ := none

end Synchronization

/-- The word `w` consists of the letters of `u` and those of `v`, which keep their order. -/
inductive Interleaves : List L → List L → List L → Prop where
  | nil : Interleaves [] [] []
  | left {l : L} {u v w : List L} : Interleaves u v w → Interleaves (l :: u) v (l :: w)
  | right {l : L} {u v w : List L} : Interleaves u v w → Interleaves u (l :: v) (l :: w)

/-- Nothing is lost and nothing is merged, even if the words have letters in common. -/
theorem Interleaves.perm {u v w : List L} (h : Interleaves u v w) : w.Perm (u ++ v) := by
  induction h with
  | nil => exact List.Perm.refl []
  | left _ ih => exact ih.cons _
  | right _ ih => exact (ih.cons _).trans List.perm_middle.symm

/-- A move of two automata side by side.  Silent moves are made alone, and so are those whose label
does not synchronize; a move of each makes a joint one, if the synchronization has a label for
them. -/
inductive SynchronizedMove [Label L] (A B : Automaton L) (s : Synchronization L) :
    Nat × Nat → Option L → Nat × Nat → Prop where
  | silentLeft {p p' q : Nat} : A.Moves p none p' → SynchronizedMove A B s (p, q) none (p', q)
  | silentRight {p q q' : Nat} : B.Moves q none q' → SynchronizedMove A B s (p, q) none (p, q')
  | left {p p' q : Nat} {l : L} : A.Moves p (some l) p' → s.synchronizes l = false →
      SynchronizedMove A B s (p, q) (some l) (p', q)
  | right {p q q' : Nat} {r : L} : B.Moves q (some r) q' → s.synchronizes r = false →
      SynchronizedMove A B s (p, q) (some r) (p, q')
  | joint {p p' q q' : Nat} {l r j : L} : A.Moves p (some l) p' → B.Moves q (some r) q' →
      s.joint l r = some j → SynchronizedMove A B s (p, q) (some j) (p', q')

namespace Automaton

variable [Label L] {A B : Automaton L} {s : Synchronization L} {p q : Nat} {u v w : List L}

section Graph

/-- The graph of the pairs of states of a product. -/
def productGraph (A B : Automaton L) (moves : Nat × Nat → List (Option L × Nat × Nat)) :
    Graph L (Nat × Nat) where
  starts := A.initials.toList.flatMap fun p => B.initials.toList.map fun q => (p, q)
  moves := moves
  initial := fun (p, q) => A.isInitial p && B.isInitial q
  terminal := fun (p, q) => A.isTerminal p && B.isTerminal q
  bound := A.size * B.size

theorem mem_starts_productGraph {moves : Nat × Nat → List (Option L × Nat × Nat)} :
    (p, q) ∈ (productGraph A B moves).starts ↔ A.isInitial p = true ∧ B.isInitial q = true := by
  simp only [productGraph, List.mem_flatMap, List.mem_map, OrderedSet.mem_toList, mem_initials,
    Prod.mk.injEq]
  constructor
  · intro h
    rcases h with ⟨_, hp, _, hq, rfl, rfl⟩
    exact ⟨hp, hq⟩
  · intro h
    rcases h with ⟨hp, hq⟩
    exact ⟨p, hp, q, hq, rfl, rfl⟩

/-- The moves between pairs of states, as a synchronization allows them. -/
def mixMoves (A B : Automaton L) (s : Synchronization L) (pair : Nat × Nat) :
    List (Option L × Nat × Nat) :=
  A.leftMoves (fun label => label.all fun l => !s.synchronizes l) pair ++
    B.rightMoves (fun label => label.all fun l => !s.synchronizes l) pair ++
    A.jointMoves B s.joint pair

theorem mem_leftMoves {f : Option L → Bool} {l : Option L} {p' q' : Nat} :
    (l, p', q') ∈ A.leftMoves f (p, q) ↔ A.Moves p l p' ∧ f l = true ∧ q' = q := by
  simp only [leftMoves, List.mem_map, List.mem_filter, Prod.mk.injEq]
  constructor
  · intro h
    rcases h with ⟨m, ⟨hm, hf⟩, rfl, rfl, rfl⟩
    exact ⟨hm, hf, rfl⟩
  · intro h
    rcases h with ⟨hm, hf, rfl⟩
    exact ⟨⟨l, p'⟩, ⟨hm, hf⟩, rfl, rfl, rfl⟩

theorem mem_rightMoves {f : Option L → Bool} {l : Option L} {p' q' : Nat} :
    (l, p', q') ∈ B.rightMoves f (p, q) ↔ B.Moves q l q' ∧ f l = true ∧ p' = p := by
  simp only [rightMoves, List.mem_map, List.mem_filter, Prod.mk.injEq]
  constructor
  · intro h
    rcases h with ⟨m, ⟨hm, hf⟩, rfl, rfl, rfl⟩
    exact ⟨hm, hf, rfl⟩
  · intro h
    rcases h with ⟨hm, hf, rfl⟩
    exact ⟨⟨l, q'⟩, ⟨hm, hf⟩, rfl, rfl, rfl⟩

theorem mem_jointMoves {joint : L → L → Option L} {label : Option L} {p' q' : Nat} :
    (label, p', q') ∈ A.jointMoves B joint (p, q) ↔
      ∃ l r j, label = some j ∧ A.Moves p (some l) p' ∧ B.Moves q (some r) q' ∧
        joint l r = some j := by
  simp only [jointMoves, List.mem_flatMap, List.mem_filterMap]
  constructor
  · intro h
    rcases h with ⟨⟨ml, _⟩, hm, ⟨nl, _⟩, hn, heq⟩
    cases ml with
    | none => simp at heq
    | some l =>
        cases nl with
        | none => simp at heq
        | some r =>
            obtain ⟨j, hj, heq⟩ := Option.map_eq_some_iff.mp heq
            simp only [Prod.mk.injEq] at heq
            obtain ⟨rfl, rfl, rfl⟩ := heq
            exact ⟨l, r, j, rfl, hm, hn, hj⟩
  · intro h
    rcases h with ⟨l, r, j, rfl, hm, hn, hj⟩
    exact ⟨⟨some l, p'⟩, hm, ⟨some r, q'⟩, hn, by simp [hj]⟩

/-- The moves between pairs of states are those of the automata side by side. -/
theorem mem_mixMoves {a b : Nat × Nat} {label : Option L} :
    (label, b) ∈ mixMoves A B s a ↔ SynchronizedMove A B s a label b := by
  obtain ⟨p, q⟩ := a
  obtain ⟨p', q'⟩ := b
  rw [mixMoves, List.mem_append, List.mem_append, mem_leftMoves, mem_rightMoves, mem_jointMoves,
    or_assoc]
  constructor
  · rintro (⟨hm, halone, rfl⟩ | ⟨hn, halone, rfl⟩ | ⟨l, r, j, rfl, hm, hn, hj⟩)
    · cases label with
      | none => exact .silentLeft hm
      | some l => exact .left hm (by simpa using halone)
    · cases label with
      | none => exact .silentRight hn
      | some r => exact .right hn (by simpa using halone)
    · exact .joint hm hn hj
  · intro h
    cases h with
    | silentLeft hm => exact Or.inl ⟨hm, rfl, rfl⟩
    | silentRight hn => exact Or.inr (Or.inl ⟨hn, rfl, rfl⟩)
    | left hm halone => exact Or.inl ⟨hm, by simpa using halone, rfl⟩
    | right hn halone => exact Or.inr (Or.inl ⟨hn, by simpa using halone, rfl⟩)
    | joint hm hn hj => exact Or.inr (Or.inr ⟨_, _, _, rfl, hm, hn, hj⟩)

theorem moves_productGraph (A B : Automaton L) (s : Synchronization L) :
    (productGraph A B (mixMoves A B s)).Moves = SynchronizedMove A B s := by
  ext a label b
  exact mem_mixMoves

/-- The moves of a product lead to pairs of states. -/
theorem bounded_mix (A B : Automaton L) (s : Synchronization L) :
    (productGraph A B (mixMoves A B s)).Bounded (A.states ×ˢ B.states) := by
  constructor
  · rintro ⟨p, q⟩ h
    obtain ⟨hp, hq⟩ := mem_starts_productGraph.mp h
    exact List.mem_product.mpr
      ⟨mem_states.mpr (lt_size_of_isInitial hp), mem_states.mpr (lt_size_of_isInitial hq)⟩
  · rintro ⟨p, q⟩ h ⟨l, p', q'⟩ hmove
    obtain ⟨hp, hq⟩ := List.mem_product.mp h
    apply List.mem_product.mpr
    cases mem_mixMoves.mp hmove with
    | silentLeft hm => exact ⟨mem_states.mpr hm.target_lt, hq⟩
    | silentRight hn => exact ⟨hp, mem_states.mpr hn.target_lt⟩
    | left hm _ => exact ⟨mem_states.mpr hm.target_lt, hq⟩
    | right hn _ => exact ⟨hp, mem_states.mpr hn.target_lt⟩
    | joint hm hn _ => exact ⟨mem_states.mpr hm.target_lt, mem_states.mpr hn.target_lt⟩
  · rw [List.length_product]
    simp [states, productGraph]

end Graph

section Merge

/-- A run of two automata side by side takes a run of each of them apart. -/
theorem exists_merges_of_run {a b : Nat × Nat} (hrun : Run (SynchronizedMove A B s) a w b) :
    ∃ u v, Run A.Moves a.1 u b.1 ∧ Run B.Moves a.2 v b.2 ∧ s.Merges u v w := by
  induction hrun using Run.inductionOnMoves with
  | done a => exact ⟨[], [], Run.done _, Run.done _, .nil⟩
  | step a c b label w hmove _ ih =>
      obtain ⟨u, v, hu, hv, hmerge⟩ := ih
      cases hmove with
      | silentLeft hm => exact ⟨u, v, Run.silent hm hu, hv, hmerge⟩
      | silentRight hn => exact ⟨u, v, hu, Run.silent hn hv, hmerge⟩
      | @left _ _ _ l hm halone => exact ⟨l :: u, v, Run.read hm hu, hv, .left halone hmerge⟩
      | @right _ _ _ r hn halone => exact ⟨u, r :: v, hu, Run.read hn hv, .right halone hmerge⟩
      | @joint _ _ _ _ l r _ hm hn hj =>
          exact ⟨l :: u, r :: v, Run.read hm hu, Run.read hn hv, .joint hj hmerge⟩

theorem run_of_silent_left {p' : Nat} (q : Nat) (hrun : Run A.Moves p [] p') :
    Run (SynchronizedMove A B s) (p, q) [] (p', q) :=
  hrun.map_silently (fun p => (p, q)) fun _ _ hmove => .silentLeft hmove

theorem run_of_silent_right {q' : Nat} (p : Nat) (hrun : Run B.Moves q [] q') :
    Run (SynchronizedMove A B s) (p, q) [] (p, q') :=
  hrun.map_silently (fun q => (p, q)) fun _ _ hmove => .silentRight hmove

/-- Runs over two words give a run over every word that is merged from them. -/
theorem run_of_merges (hmerge : s.Merges u v w) {p' q' : Nat} (hu : Run A.Moves p u p')
    (hv : Run B.Moves q v q') : Run (SynchronizedMove A B s) (p, q) w (p', q') := by
  induction hmerge generalizing p q with
  | nil => exact (run_of_silent_left q hu).append (run_of_silent_right p' hv)
  | left halone _ ih =>
      obtain ⟨r, r', hsilent, hmove, hrest⟩ := Run.cons_iff.mp hu
      exact (run_of_silent_left q hsilent).append (Run.read (.left hmove halone) (ih hrest hv))
  | right halone _ ih =>
      obtain ⟨r, r', hsilent, hmove, hrest⟩ := Run.cons_iff.mp hv
      exact (run_of_silent_right p hsilent).append (Run.read (.right hmove halone) (ih hu hrest))
  | joint hj _ ih =>
      obtain ⟨a, a', hleft, hmove, hu'⟩ := Run.cons_iff.mp hu
      obtain ⟨b, b', hright, hanswer, hv'⟩ := Run.cons_iff.mp hv
      refine (run_of_silent_left q hleft).append ((run_of_silent_right a hright).append ?_)
      exact Run.read (.joint hmove hanswer hj) (ih hu' hv')

/-- A product accepts the words that are merged from accepted words. -/
theorem mem_language_mixWith :
    w ∈ (A.mixWith B s).language ↔
      ∃ u ∈ A.language, ∃ v ∈ B.language, s.Merges u v w := by
  have hbounded := bounded_mix A B s
  have hmix : A.mixWith B s = (productGraph A B (mixMoves A B s)).automaton := rfl
  rw [hmix, hbounded.mem_language_automaton]
  constructor
  · intro h
    rcases h with ⟨⟨p, q⟩, -, hinitial, ⟨p', q'⟩, hrun, hterminal⟩
    obtain ⟨hp, hq⟩ := Bool.and_eq_true_iff.mp hinitial
    obtain ⟨hp', hq'⟩ := Bool.and_eq_true_iff.mp hterminal
    rw [moves_productGraph] at hrun
    obtain ⟨u, v, hu, hv, hmerge⟩ := exists_merges_of_run hrun
    exact ⟨u, ⟨p, hp, p', hu, hp'⟩, v, ⟨q, hq, q', hv, hq'⟩, hmerge⟩
  · intro h
    rcases h with ⟨u, ⟨p, hp, p', hu, hp'⟩, v, ⟨q, hq, q', hv, hq'⟩, hmerge⟩
    refine ⟨(p, q), ?_, Bool.and_eq_true_iff.mpr ⟨hp, hq⟩, (p', q'), ?_,
      Bool.and_eq_true_iff.mpr ⟨hp', hq'⟩⟩
    · exact hbounded.breadthFirst.mem_of_mem_starts (mem_starts_productGraph.mpr ⟨hp, hq⟩)
    · rw [moves_productGraph]
      exact run_of_merges hmerge hu hv

end Merge

section Shuffle

omit [Label L] in
theorem merges_free_iff : Synchronization.free.Merges u v w ↔ Interleaves u v w := by
  constructor
  · intro h
    induction h with
    | nil => exact .nil
    | left _ _ ih => exact .left ih
    | right _ _ ih => exact .right ih
    | joint hj _ _ => simp [Synchronization.free] at hj
  · intro h
    induction h with
    | nil => exact .nil
    | left _ ih => exact .left rfl ih
    | right _ ih => exact .right rfl ih

/-- Interleaving is the product in which nothing synchronizes. -/
theorem shuffle_eq_mixWith : A.shuffle B = A.mixWith B .free := by
  rw [shuffle, mixWith]
  refine congrArg (A.product B) (funext fun pair => ?_)
  have hjoint : A.jointMoves B (fun _ _ => none) pair = [] := by
    refine List.flatMap_eq_nil_iff.mpr fun m _ => List.filterMap_eq_nil_iff.mpr fun n _ => ?_
    cases m.label <;> cases n.label <;> rfl
  have hall (label : Option L) : label.all (fun _ => true) = true := by
    cases label <;> rfl
  simp [Synchronization.free, hjoint, hall]

/-- A shuffle accepts the interleavings of accepted words. -/
theorem mem_language_shuffle :
    w ∈ (A.shuffle B).language ↔ ∃ u ∈ A.language, ∃ v ∈ B.language, Interleaves u v w := by
  rw [shuffle_eq_mixWith, mem_language_mixWith]
  simp only [merges_free_iff]

end Shuffle

section Mix

variable {S T : OrderedSet L}

theorem synchronizes_common_eq_false {l : L} :
    (Synchronization.common (S.filter T.contains)).synchronizes l = false ↔ l ∈ S → l ∉ T := by
  rw [Synchronization.common, ← Bool.not_eq_true, OrderedSet.contains_iff, OrderedSet.mem_filter,
    OrderedSet.contains_iff, not_and]

theorem joint_common_eq_some {l r j : L} :
    (Synchronization.common (S.filter T.contains)).joint l r = some j ↔
      l = j ∧ r = j ∧ j ∈ S ∧ j ∈ T := by
  simp only [Synchronization.common, Option.ite_none_right_eq_some, OrderedSet.contains_iff,
    OrderedSet.mem_filter, Option.some.injEq]
  constructor
  · intro h
    rcases h with ⟨⟨rfl, hS, hT⟩, rfl⟩
    exact ⟨rfl, rfl, hS, hT⟩
  · intro h
    rcases h with ⟨rfl, rfl, hS, hT⟩
    exact ⟨⟨rfl, hS, hT⟩, rfl⟩

/-- Words that are merged by their common letters are the projections of what they are merged to. -/
theorem projections_of_merges
    (hmerge : (Synchronization.common (S.filter T.contains)).Merges u v w)
    (hu : ∀ l ∈ u, l ∈ S) (hv : ∀ l ∈ v, l ∈ T) :
    (∀ l ∈ w, l ∈ S ∨ l ∈ T) ∧ w.filter S.contains = u ∧ w.filter T.contains = v := by
  induction hmerge with
  | nil => simp
  | @left l u v w halone _ ih =>
      obtain ⟨hl, hu⟩ := List.forall_mem_cons.mp hu
      obtain ⟨hw, hleft, hright⟩ := ih hu hv
      have hT := synchronizes_common_eq_false.mp halone hl
      refine ⟨List.forall_mem_cons.mpr ⟨Or.inl hl, hw⟩, ?_, ?_⟩
      · rw [List.filter_cons_of_pos (OrderedSet.contains_iff.mpr hl), hleft]
      · rw [List.filter_cons_of_neg (mt OrderedSet.contains_iff.mp hT), hright]
  | @right l u v w halone _ ih =>
      obtain ⟨hl, hv⟩ := List.forall_mem_cons.mp hv
      obtain ⟨hw, hleft, hright⟩ := ih hu hv
      have hS : l ∉ S := fun hS => synchronizes_common_eq_false.mp halone hS hl
      refine ⟨List.forall_mem_cons.mpr ⟨Or.inr hl, hw⟩, ?_, ?_⟩
      · rw [List.filter_cons_of_neg (mt OrderedSet.contains_iff.mp hS), hleft]
      · rw [List.filter_cons_of_pos (OrderedSet.contains_iff.mpr hl), hright]
  | joint hj _ ih =>
      obtain ⟨rfl, rfl, hS, hT⟩ := joint_common_eq_some.mp hj
      obtain ⟨hw, hleft, hright⟩ := ih (List.forall_mem_cons.mp hu).2 (List.forall_mem_cons.mp hv).2
      refine ⟨List.forall_mem_cons.mpr ⟨Or.inl hS, hw⟩, ?_, ?_⟩
      · rw [List.filter_cons_of_pos (OrderedSet.contains_iff.mpr hS), hleft]
      · rw [List.filter_cons_of_pos (OrderedSet.contains_iff.mpr hT), hright]

/-- A word over two alphabets is merged from its projections. -/
theorem merges_projections (hw : ∀ l ∈ w, l ∈ S ∨ l ∈ T) :
    (Synchronization.common (S.filter T.contains)).Merges (w.filter S.contains)
      (w.filter T.contains) w := by
  induction w with
  | nil => exact .nil
  | cons l w ih =>
      obtain ⟨hl, hw⟩ := List.forall_mem_cons.mp hw
      have hrest := ih hw
      by_cases hS : l ∈ S
      · rw [List.filter_cons_of_pos (OrderedSet.contains_iff.mpr hS)]
        by_cases hT : l ∈ T
        · rw [List.filter_cons_of_pos (OrderedSet.contains_iff.mpr hT)]
          exact .joint (joint_common_eq_some.mpr ⟨rfl, rfl, hS, hT⟩) hrest
        · rw [List.filter_cons_of_neg (mt OrderedSet.contains_iff.mp hT)]
          exact .left (synchronizes_common_eq_false.mpr fun _ => hT) hrest
      · have hT : l ∈ T := hl.resolve_left hS
        rw [List.filter_cons_of_neg (mt OrderedSet.contains_iff.mp hS),
          List.filter_cons_of_pos (OrderedSet.contains_iff.mpr hT)]
        exact .right (synchronizes_common_eq_false.mpr fun h => absurd h hS) hrest

/-- A mix accepts the words over both alphabets whose projections are accepted. -/
theorem mem_language_mix :
    w ∈ (A.mix B).language ↔
      (∀ l ∈ w, l ∈ A.alphabet ∨ l ∈ B.alphabet) ∧ w.filter A.alphabet.contains ∈ A.language ∧
        w.filter B.alphabet.contains ∈ B.language := by
  rw [mix, mem_language_mixWith]
  constructor
  · intro h
    rcases h with ⟨u, hu, v, hv, hmerge⟩
    obtain ⟨hw, rfl, rfl⟩ := projections_of_merges hmerge
      (fun l hl => mem_alphabet_of_mem_language hu hl)
      fun l hl => mem_alphabet_of_mem_language hv hl
    exact ⟨hw, hu, hv⟩
  · intro h
    rcases h with ⟨hw, hu, hv⟩
    exact ⟨_, hu, _, hv, merges_projections hw⟩

end Mix

section Intersection

theorem merges_synchronous_iff : Synchronization.synchronous.Merges u v w ↔ u = w ∧ v = w := by
  constructor
  · intro h
    induction h with
    | nil => exact ⟨rfl, rfl⟩
    | left halone _ _ => simp [Synchronization.synchronous] at halone
    | right halone _ _ => simp [Synchronization.synchronous] at halone
    | joint hj _ ih =>
        obtain ⟨rfl, rfl⟩ := ih
        simp only [Synchronization.synchronous, Option.ite_none_right_eq_some,
          Option.some.injEq] at hj
        obtain ⟨rfl, rfl⟩ := hj
        exact ⟨rfl, rfl⟩
  · intro h
    rcases h with ⟨rfl, rfl⟩
    induction v with
    | nil => exact .nil
    | cons l v ih => exact .joint (by simp [Synchronization.synchronous]) ih

/-- An intersection accepts what both automata accept. -/
theorem mem_language_intersection :
    w ∈ (A.intersection B).language ↔ w ∈ A.language ∧ w ∈ B.language := by
  rw [intersection, mem_language_mixWith]
  simp only [merges_synchronous_iff]
  constructor
  · intro h
    rcases h with ⟨_, hu, _, hv, rfl, rfl⟩
    exact ⟨hu, hv⟩
  · exact fun ⟨hu, hv⟩ => ⟨w, hu, w, hv, rfl, rfl⟩

end Intersection

end Automaton

end FiniteState
