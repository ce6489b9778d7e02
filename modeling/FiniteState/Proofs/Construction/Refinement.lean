import FiniteState.Construction.Quotient
import FiniteState.Proofs.Automaton.Bisimulation
import FiniteState.Proofs.Numbering
/-!
Refinement comes to a stable partition.  Classes are numbered in the order of their first states,
so a round that separates no states changes no number either, and a round that does separate some
increases the number of classes.  The partition that is left is the coarsest one: bisimilar states
are never separated.
-/

namespace FiniteState

universe u v w

variable {L : Type u} [Label L]

namespace Automaton

variable {A : Automaton L} {classes : Array Nat} {p q : Nat}

section Classify

variable {α : Type v} [Ordered α]

/-- The class of every state, where states with the same value are in one class and the classes are
numbered in the order of their first states. -/
def classify (A : Automaton L) (f : Nat → α) : Array Nat :=
  (numberByFirst (A.states.map f)).toArray

variable [DecidableEq α] {f : Nat → α}

theorem size_classify : (A.classify f).size = A.size := by
  simp [classify, states]

theorem getD_classify (hp : p < A.size) :
    (A.classify f).getD p 0 = (A.states.map f).eraseDups.idxOf (f p) := by
  have hp' : p < (A.states.map f).length := by simpa [states] using hp
  rw [classify, Array.getD_eq_getD_getElem?, List.getElem?_toArray, numberByFirst_eq,
    List.getElem?_map, List.getElem?_eq_getElem hp', List.getElem_map]
  simp [states]

omit [Ordered α] [DecidableEq α] in
theorem mem_map_states (hp : p < A.size) : f p ∈ A.states.map f :=
  List.mem_map_of_mem (mem_states.mpr hp)

/-- Two states are in one class exactly if they have the same value. -/
theorem getD_classify_eq_iff (hp : p < A.size) (hq : q < A.size) :
    (A.classify f).getD p 0 = (A.classify f).getD q 0 ↔ f p = f q := by
  rw [getD_classify hp, getD_classify hq, idxOf_eraseDups_inj (mem_map_states hp)]

theorem map_getD_classify :
    A.states.map (fun p => (A.classify f).getD p 0) = numberByFirst (A.states.map f) := by
  rw [numberByFirst_eq, List.map_map]
  exact List.map_congr_left fun p hp => getD_classify (mem_states.mp hp)

theorem classify_getD_classify :
    A.classify (fun p => (A.classify f).getD p 0) = A.classify f := by
  rw [classify, map_getD_classify, numberByFirst_numberByFirst, classify]

/-- The number of different values of the states. -/
def distinct (A : Automaton L) (f : Nat → α) : Nat :=
  (A.states.map f).eraseDups.length

omit [Ordered α] in
theorem distinct_le_size : A.distinct f ≤ A.size := by
  have h := (eraseDups_subperm (A.states.map f)).length_le
  simpa [distinct, states] using h

omit [Ordered α] in
theorem distinct_comp_le {β : Type w} [DecidableEq β] (f : Nat → α) (g : α → β) :
    A.distinct (fun p => g (f p)) ≤ A.distinct f := by
  have hle := (eraseDups_subperm ((A.states.map f).eraseDups.map g)).length_le
  rwa [eraseDups_map_eraseDups, List.map_map, List.length_map] at hle

theorem distinct_classify : A.distinct (fun p => (A.classify f).getD p 0) = A.distinct f := by
  rw [distinct, map_getD_classify, eraseDups_numberByFirst, List.length_range, distinct]

theorem exists_getD_classify {c : Nat} (hc : c < A.distinct f) :
    ∃ p < A.size, (A.classify f).getD p 0 = c := by
  have hmem : c ∈ A.states.map fun p => (A.classify f).getD p 0 := by
    rw [map_getD_classify, ← List.mem_eraseDups, eraseDups_numberByFirst]
    exact List.mem_range.mpr hc
  obtain ⟨p, hp, rfl⟩ := List.mem_map.mp hmem
  exact ⟨p, mem_states.mp hp, rfl⟩

theorem getD_classify_lt (hp : p < A.size) : (A.classify f).getD p 0 < A.distinct f := by
  rw [getD_classify hp]
  exact List.idxOf_lt_length_of_mem (List.mem_eraseDups.mpr (mem_map_states hp))

/-- States with different values have their own numbers as classes. -/
theorem getD_classify_of_injOn
    (hf : ∀ p < A.size, ∀ q < A.size, f p = f q → p = q) (hp : p < A.size) :
    (A.classify f).getD p 0 = p := by
  have hnodup : (A.states.map f).Nodup :=
    List.Nodup.map_on (fun p hp q hq => hf p (mem_states.mp hp) q (mem_states.mp hq))
      List.nodup_range
  have hp' : p < (A.states.map f).length := by simpa [states] using hp
  have hget : (A.states.map f)[p] = f p := by simp [states]
  rw [getD_classify hp, eraseDups_eq_self_of_nodup hnodup, ← hget]
  exact hnodup.idxOf_getElem p hp'

end Classify

section Round

theorem refineOnce_eq : A.refineOnce classes = A.classify (A.signature classes) :=
  rfl

/-- States that a round leaves together were together before. -/
theorem class_eq_of_refineOnce_eq (hp : p < A.size) (hq : q < A.size)
    (h : (A.refineOnce classes).getD p 0 = (A.refineOnce classes).getD q 0) :
    classes.getD p 0 = classes.getD q 0 := by
  rw [refineOnce_eq, getD_classify_eq_iff hp hq] at h
  exact congrArg Prod.fst h

theorem map_fst_signature :
    (A.states.map (A.signature classes)).map Prod.fst = A.states.map fun p => classes.getD p 0 := by
  rw [List.map_map]
  rfl

theorem distinct_refineOnce :
    A.distinct (fun p => (A.refineOnce classes).getD p 0) = A.distinct (A.signature classes) :=
  distinct_classify

theorem distinct_le_refineOnce :
    A.distinct (fun p => classes.getD p 0) ≤
      A.distinct fun p => (A.refineOnce classes).getD p 0 := by
  rw [distinct_refineOnce]
  exact distinct_comp_le (A.signature classes) Prod.fst

/-- If a round finds no further class, then the class of a state determines its signature. -/
theorem signature_eq_of_distinct_le
    (hle : A.distinct (fun p => (A.refineOnce classes).getD p 0) ≤
      A.distinct fun p => classes.getD p 0)
    (hp : p < A.size) (hq : q < A.size) (h : classes.getD p 0 = classes.getD q 0) :
    A.signature classes p = A.signature classes q := by
  rw [distinct_refineOnce, distinct, distinct, ← map_fst_signature] at hle
  exact injOn_of_length_eraseDups_le hle _ (mem_map_states hp) _ (mem_map_states hq) h

theorem mem_signature {l : Option L} {c : Nat} :
    ⟨l, c⟩ ∈ (A.signature classes p).2 ↔ ∃ q, A.Moves p l q ∧ classes.getD q 0 = c := by
  rw [signature, OrderedSet.mem_image]
  constructor
  · intro h
    rcases h with ⟨m, hm, heq⟩
    simp only [Move.mk.injEq] at heq
    exact ⟨m.state, heq.1 ▸ hm, heq.2⟩
  · intro h
    rcases h with ⟨q, hmove, rfl⟩
    exact ⟨⟨l, q⟩, hmove, rfl⟩

end Round

section Stable

/-- The states of one class are all terminal or all not, and by every label, and silently, they lead
to the same classes. -/
structure Stable (A : Automaton L) (classes : Array Nat) : Prop where
  terminal_eq : ∀ p < A.size, ∀ q < A.size, classes.getD p 0 = classes.getD q 0 →
    A.isTerminal p = A.isTerminal q
  reached_iff : ∀ p < A.size, ∀ q < A.size, classes.getD p 0 = classes.getD q 0 →
    ∀ l c, (∃ p', A.Moves p l p' ∧ classes.getD p' 0 = c) ↔
      ∃ q', A.Moves q l q' ∧ classes.getD q' 0 = c

theorem Stable.signature_eq (h : A.Stable classes) (hp : p < A.size) (hq : q < A.size)
    (hpq : classes.getD p 0 = classes.getD q 0) :
    A.signature classes p = A.signature classes q := by
  refine Prod.ext hpq (OrderedSet.eq_of_mem_iff ?_)
  rintro ⟨l, c⟩
  rw [mem_signature, mem_signature]
  exact h.reached_iff p hp q hq hpq l c

/-- A round does not change classes that are stable, if they are numbered in the order of their
first states. -/
theorem Stable.refineOnce_eq (h : A.Stable classes)
    (hnumbered : A.classify (fun p => classes.getD p 0) = classes) :
    A.refineOnce classes = classes := by
  have hinj : ∀ a ∈ A.states.map (A.signature classes), ∀ b ∈ A.states.map (A.signature classes),
      a.1 = b.1 → a = b := by
    intro a ha b hb hab
    obtain ⟨p, hp, rfl⟩ := List.mem_map.mp ha
    obtain ⟨q, hq, rfl⟩ := List.mem_map.mp hb
    exact h.signature_eq (mem_states.mp hp) (mem_states.mp hq) hab
  calc A.refineOnce classes
      = (numberByFirst (A.states.map (A.signature classes))).toArray := rfl
    _ = (numberByFirst ((A.states.map (A.signature classes)).map Prod.fst)).toArray := by
        rw [numberByFirst_map hinj]
    _ = A.classify fun p => classes.getD p 0 := by rw [map_fst_signature, classify]
    _ = classes := hnumbered

end Stable

section Rounds

def classesAfter (A : Automaton L) : Nat → Array Nat
  | 0 => A.terminalClasses
  | rounds + 1 => A.refineOnce (A.classesAfter rounds)

/-- The round has found as many classes as there were before, so it is the last one. -/
def StopsAfter (A : Automaton L) : Nat → Prop
  | 0 => False
  | rounds + 1 => countClasses (A.classesAfter (rounds + 1)) = countClasses (A.classesAfter rounds)

variable {k : Nat}

theorem getD_terminalClasses (hp : p < A.size) :
    A.terminalClasses.getD p 0 = (A.isTerminal p).toNat := by
  simp [terminalClasses, states, hp]

theorem size_classesAfter (k : Nat) : (A.classesAfter k).size = A.size := by
  cases k with
  | zero => simp [classesAfter, terminalClasses, states]
  | succ k => exact size_classify

/-- After every round the classes are numbered in the order of their first states. -/
theorem classify_classesAfter (k : Nat) :
    A.classify (fun p => (A.classesAfter (k + 1)).getD p 0) = A.classesAfter (k + 1) :=
  classify_getD_classify

theorem map_classesAfter (k : Nat) :
    A.states.map (fun p => (A.classesAfter k).getD p 0) = (A.classesAfter k).toList := by
  apply List.ext_getElem
  · simp [states, size_classesAfter]
  · intro p hp hp'
    rw [Array.length_toList] at hp'
    simp [states, Array.getD_eq_getD_getElem?, Array.getElem?_eq_getElem hp']

theorem countClasses_eq (classes : Array Nat) :
    countClasses classes = classes.toList.eraseDups.length := by
  have hdistinct := (LookupSet.ofList classes.toList).distinct_toList
  have hnodup : (LookupSet.ofList classes.toList).toList.Nodup :=
    hdistinct.imp fun hne heq => hne (Ordered.order_eq_iff.mpr heq)
  have hperm : (LookupSet.ofList classes.toList).toList.Perm classes.toList.eraseDups := by
    rw [List.perm_ext_iff_of_nodup hnodup (nodup_eraseDups _)]
    intro c
    rw [List.mem_eraseDups, Std.ExtTreeSet.mem_toList]
    exact LookupSet.mem_ofList
  rw [countClasses, ← Std.ExtTreeSet.length_toList]
  exact hperm.length_eq

theorem countClasses_classesAfter (k : Nat) :
    countClasses (A.classesAfter k) = A.distinct fun p => (A.classesAfter k).getD p 0 := by
  rw [countClasses_eq, distinct, map_classesAfter]

/-- The classes are the first numbers, and they occur for the first time in the order of
counting. -/
theorem eraseDups_classesAfter (k : Nat) :
    (A.classesAfter (k + 1)).toList.eraseDups =
      List.range (countClasses (A.classesAfter (k + 1))) := by
  have htoList : (A.classesAfter (k + 1)).toList =
      numberByFirst (A.states.map (A.signature (A.classesAfter k))) := rfl
  rw [countClasses_eq, htoList, eraseDups_numberByFirst, List.length_range]

theorem isTerminal_eq_of_classesAfter_eq (hp : p < A.size) (hq : q < A.size)
    (h : (A.classesAfter k).getD p 0 = (A.classesAfter k).getD q 0) :
    A.isTerminal p = A.isTerminal q := by
  induction k with
  | zero =>
      rw [classesAfter, getD_terminalClasses hp, getD_terminalClasses hq] at h
      simpa using congrArg (· == 1) h
  | succ k ih => exact ih (class_eq_of_refineOnce_eq hp hq h)

theorem countClasses_lt_of_not_stopsAfter (h : ¬ A.StopsAfter (k + 1)) :
    countClasses (A.classesAfter k) < countClasses (A.classesAfter (k + 1)) := by
  have hle : countClasses (A.classesAfter k) ≤ countClasses (A.classesAfter (k + 1)) := by
    rw [countClasses_classesAfter, countClasses_classesAfter]
    exact distinct_le_refineOnce
  exact Nat.lt_of_le_of_ne hle (Ne.symm h)

/-- The number of classes tells whether they are stable. -/
theorem stable_of_stopsAfter (h : A.StopsAfter k) : A.Stable (A.classesAfter k) := by
  cases k with
  | zero => exact absurd h id
  | succ k =>
      rw [StopsAfter, countClasses_classesAfter, countClasses_classesAfter] at h
      have hsame {p q : Nat} (hp : p < A.size) (hq : q < A.size)
          (hpq : (A.classesAfter k).getD p 0 = (A.classesAfter k).getD q 0) :
          (A.classesAfter (k + 1)).getD p 0 = (A.classesAfter (k + 1)).getD q 0 :=
        (getD_classify_eq_iff hp hq).mpr (signature_eq_of_distinct_le (Nat.le_of_eq h) hp hq hpq)
      have hanswered {p q : Nat} (hp : p < A.size) (hq : q < A.size)
          (hpq : (A.classesAfter (k + 1)).getD p 0 = (A.classesAfter (k + 1)).getD q 0)
          {l : Option L} {p' : Nat} (hmove : A.Moves p l p') :
          ∃ q', A.Moves q l q' ∧
            (A.classesAfter (k + 1)).getD q' 0 = (A.classesAfter (k + 1)).getD p' 0 := by
        have hsignature := (getD_classify_eq_iff hp hq).mp hpq
        have hmem : ⟨l, (A.classesAfter k).getD p' 0⟩ ∈ (A.signature (A.classesAfter k) p).2 :=
          mem_signature.mpr ⟨p', hmove, rfl⟩
        rw [hsignature] at hmem
        obtain ⟨q', hmove', hclass⟩ := mem_signature.mp hmem
        exact ⟨q', hmove', hsame hmove'.target_lt hmove.target_lt hclass⟩
      refine ⟨fun p hp q hq hpq => isTerminal_eq_of_classesAfter_eq hp hq hpq, ?_⟩
      intro p hp q hq hpq l c
      constructor
      · rintro ⟨p', hmove, rfl⟩
        exact hanswered hp hq hpq hmove
      · rintro ⟨q', hmove, rfl⟩
        exact hanswered hq hp hpq.symm hmove

theorem countClasses_le_size (k : Nat) : countClasses (A.classesAfter k) ≤ A.size := by
  rw [countClasses_classesAfter]
  exact distinct_le_size

theorem countClasses_pos (hsize : 0 < A.size) (k : Nat) : 0 < countClasses (A.classesAfter k) := by
  rw [countClasses_classesAfter]
  exact List.length_pos_of_mem (List.mem_eraseDups.mpr (mem_map_states hsize))

/-- The loop ends after the first round that finds no further class.  Each round before it has found
one, and there are never more classes than states. -/
theorem exists_refineFrom_eq (rounds k : Nat)
    (hrounds : A.size < rounds + countClasses (A.classesAfter k)) :
    ∃ j, k < j ∧ A.StopsAfter j ∧ (∀ i, k < i → i < j → ¬ A.StopsAfter i) ∧
      j + countClasses (A.classesAfter k) ≤ k + 1 + A.size ∧
      A.refineFrom rounds (countClasses (A.classesAfter k)) (A.classesAfter k) =
        A.classesAfter j := by
  have hle := A.countClasses_le_size k
  induction rounds generalizing k with
  | zero => omega
  | succ rounds ih =>
      rw [refineFrom]
      by_cases hstops : A.StopsAfter (k + 1)
      · refine ⟨k + 1, Nat.lt_succ_self k, hstops, fun i hi hik => ?_, by omega, if_pos hstops⟩
        omega
      · have hlt := countClasses_lt_of_not_stopsAfter hstops
        obtain ⟨j, hj, hstop, hbefore, hbound, hresult⟩ :=
          ih (k + 1) (by omega) (A.countClasses_le_size (k + 1))
        refine ⟨j, by omega, hstop, fun i hi hij => ?_, by omega, ?_⟩
        · rcases Nat.eq_or_lt_of_le hi with rfl | hi
          · exact hstops
          · exact hbefore i hi hij
        · exact (if_neg hstops).trans hresult

/-- Refinement does not run out of rounds. -/
theorem exists_refine_eq (A : Automaton L) :
    ∃ k, 0 < k ∧ k ≤ max 1 A.size ∧ A.StopsAfter k ∧ (∀ j < k, ¬ A.StopsAfter j) ∧
      A.refine = A.classesAfter k := by
  obtain ⟨k, hpos, hstops, hbefore, hbound, hresult⟩ :=
    A.exists_refineFrom_eq (A.size + 1) 0 (by omega)
  refine ⟨k, hpos, ?_, hstops, fun j hj => ?_, hresult⟩
  · rcases Nat.eq_zero_or_pos A.size with hsize | hsize
    · omega
    · have hclasses := A.countClasses_pos hsize 0
      omega
  · rcases Nat.eq_zero_or_pos j with rfl | hj'
    · exact id
    · exact hbefore j hj' hj

theorem stable_refine (A : Automaton L) : A.Stable A.refine := by
  obtain ⟨k, -, -, hstops, -, hrefine⟩ := A.exists_refine_eq
  rw [hrefine]
  exact stable_of_stopsAfter hstops

theorem refineOnce_refine (A : Automaton L) : A.refineOnce A.refine = A.refine := by
  obtain ⟨k, -, -, hstops, -, hrefine⟩ := A.exists_refine_eq
  cases k with
  | zero => exact absurd hstops id
  | succ k =>
      rw [hrefine]
      exact (stable_of_stopsAfter hstops).refineOnce_eq (classify_classesAfter k)

/-- The classes in the end are those of the states with equal signatures. -/
theorem refine_eq_classify (A : Automaton L) : A.refine = A.classify (A.signature A.refine) := by
  rw [← refineOnce_eq, refineOnce_refine]

theorem size_refine : A.refine.size = A.size := by
  rw [refine_eq_classify, size_classify]

theorem isTerminal_eq_of_refine_eq (hp : p < A.size) (hq : q < A.size)
    (h : A.refine.getD p 0 = A.refine.getD q 0) : A.isTerminal p = A.isTerminal q :=
  A.stable_refine.terminal_eq p hp q hq h

/-- The moves of a state are answered by every other state of its class. -/
theorem exists_moves_of_refine_eq {p' : Nat} {l : Option L} (hp : p < A.size) (hq : q < A.size)
    (h : A.refine.getD p 0 = A.refine.getD q 0) (hmove : A.Moves p l p') :
    ∃ q', A.Moves q l q' ∧ A.refine.getD p' 0 = A.refine.getD q' 0 := by
  have hiff := A.stable_refine.reached_iff p hp q hq h l (A.refine.getD p' 0)
  obtain ⟨q', hmove', hclass⟩ := hiff.mp ⟨p', hmove, rfl⟩
  exact ⟨q', hmove', hclass.symm⟩

end Rounds

section Coarsest

variable {related : Nat → Nat → Prop}

theorem signature_eq_of_isBisimulation (h : IsBisimulation A A related)
    (hclasses : ∀ p < A.size, ∀ q < A.size, related p q → classes.getD p 0 = classes.getD q 0)
    (hp : p < A.size) (hq : q < A.size) (hpq : related p q) :
    A.signature classes p = A.signature classes q := by
  refine Prod.ext (hclasses p hp q hq hpq) (OrderedSet.eq_of_mem_iff ?_)
  rintro ⟨l, c⟩
  rw [mem_signature, mem_signature]
  constructor
  · intro h
    rcases h with ⟨p', hmove, rfl⟩
    obtain ⟨q', hmove', hpq'⟩ := h.forth p q l p' hpq hmove
    exact ⟨q', hmove', (hclasses p' hmove.target_lt q' hmove'.target_lt hpq').symm⟩
  · intro h
    rcases h with ⟨q', hmove, rfl⟩
    obtain ⟨p', hmove', hpq'⟩ := h.back p q l q' hpq hmove
    exact ⟨p', hmove', hclasses p' hmove'.target_lt q' hmove.target_lt hpq'⟩

theorem classesAfter_eq_of_isBisimulation (h : IsBisimulation A A related) (k : Nat) :
    ∀ p < A.size, ∀ q < A.size, related p q →
      (A.classesAfter k).getD p 0 = (A.classesAfter k).getD q 0 := by
  induction k with
  | zero =>
      intro p hp q hq hpq
      rw [classesAfter, getD_terminalClasses hp, getD_terminalClasses hq, h.terminal_eq p q hpq]
  | succ k ih =>
      intro p hp q hq hpq
      rw [classesAfter, refineOnce_eq, getD_classify_eq_iff hp hq]
      exact signature_eq_of_isBisimulation h ih hp hq hpq

/-- States that some bisimulation relates are in one class. -/
theorem refine_eq_of_isBisimulation (h : IsBisimulation A A related) (hp : p < A.size)
    (hq : q < A.size) (hpq : related p q) : A.refine.getD p 0 = A.refine.getD q 0 := by
  obtain ⟨k, -, -, -, -, hrefine⟩ := A.exists_refine_eq
  rw [hrefine]
  exact classesAfter_eq_of_isBisimulation h k p hp q hq hpq

end Coarsest

/-- Refinement comes to its classes by rounds.  Each of them separates states of one class only, and
numbers the classes in the order of their first states.  The loop ends after the first round that
finds no further class, which is one of the first `max 1 n` rounds for `n` states, and the classes
are stable then: counting them is enough to tell. -/
theorem refinement_ends_stable_within_size (A : Automaton L) :
    (∀ k, (A.classesAfter (k + 1)).size = A.size ∧
      (∀ p < A.size, ∀ q < A.size,
        (A.classesAfter (k + 1)).getD p 0 = (A.classesAfter (k + 1)).getD q 0 →
          (A.classesAfter k).getD p 0 = (A.classesAfter k).getD q 0) ∧
      (A.classesAfter (k + 1)).toList.eraseDups =
        List.range (countClasses (A.classesAfter (k + 1)))) ∧
    (∀ k, A.StopsAfter k → A.Stable (A.classesAfter k)) ∧
    ∃ k, 0 < k ∧ k ≤ max 1 A.size ∧ A.StopsAfter k ∧ (∀ j < k, ¬ A.StopsAfter j) ∧
      A.refine = A.classesAfter k := by
  refine ⟨?_, fun k hstops => stable_of_stopsAfter hstops, A.exists_refine_eq⟩
  intro k
  refine ⟨size_classesAfter (k + 1), ?_, eraseDups_classesAfter k⟩
  exact fun p hp q hq hpq => class_eq_of_refineOnce_eq hp hq hpq

end Automaton

end FiniteState
