import FiniteState.Proofs.Automaton.Isomorphism
import FiniteState.Proofs.Construction.Quotient
import FiniteState.Proofs.Partition
/-!
The reduced automaton as the quotient by bisimilarity.  The stable classes are the classes of
bisimilar states, every state is bisimilar to its class, and two classes are never bisimilar.  So
accessible automata with bisimilar initial states have the same reduced automaton up to the numbers
of the classes.
-/

namespace FiniteState

universe u

variable {L : Type u} [Label L]

namespace Automaton

variable {A B : Automaton L} {p q : Nat}

theorem isBisimulation_classOf (A : Automaton L) :
    IsBisimulation A A fun p q => p < A.size ∧ q < A.size ∧ A.classOf p = A.classOf q := by
  refine ⟨?_, ?_, ?_⟩
  · rintro p q ⟨hp, hq, hclass⟩
    exact isTerminal_eq_of_refine_eq hp hq hclass
  · rintro p q l p' ⟨hp, hq, hclass⟩ hmove
    obtain ⟨q', hmove', hclass'⟩ := exists_moves_of_refine_eq hp hq hclass hmove
    exact ⟨q', hmove', hmove.target_lt, hmove'.target_lt, hclass'⟩
  · rintro p q l q' ⟨hp, hq, hclass⟩ hmove
    obtain ⟨p', hmove', hclass'⟩ := exists_moves_of_refine_eq hq hp hclass.symm hmove
    exact ⟨p', hmove', hmove'.target_lt, hmove.target_lt, hclass'.symm⟩

/-- The stable classes are those of the bisimilar states. -/
theorem classOf_eq_iff_bisimilar (hp : p < A.size) (hq : q < A.size) :
    A.classOf p = A.classOf q ↔ Bisimilar A A p q := by
  constructor
  · exact fun h => ⟨_, A.isBisimulation_classOf, hp, hq, h⟩
  · rintro ⟨related, hrelated, hpq⟩
    exact refine_eq_of_isBisimulation hrelated hp hq hpq

theorem isBisimulation_reduce (A : Automaton L) :
    IsBisimulation A A.reduce fun p x => p < A.size ∧ A.classOf p = x := by
  refine ⟨?_, ?_, ?_⟩
  · rintro p _ ⟨hp, rfl⟩
    rw [Bool.eq_iff_iff, isTerminal_reduce]
    constructor
    · exact fun hterminal => ⟨p, hterminal, rfl⟩
    · rintro ⟨q, hterminal, hclass⟩
      rwa [isTerminal_eq_of_refine_eq (lt_size_of_isTerminal hterminal) hp hclass] at hterminal
  · rintro p _ l p' ⟨hp, rfl⟩ hmove
    exact ⟨A.classOf p', moves_reduce.mpr ⟨p, p', hmove, rfl, rfl⟩, hmove.target_lt, rfl⟩
  · rintro p _ l y ⟨hp, rfl⟩ hstep
    -- The move may stem from another member of the class; `p` answers it, as classes are stable.
    obtain ⟨q, q', hmove, hclass, rfl⟩ := moves_reduce.mp hstep
    obtain ⟨p', hmove', hclass'⟩ := exists_moves_of_refine_eq hmove.start_lt hp hclass hmove
    exact ⟨p', hmove', hmove'.target_lt, hclass'.symm⟩

/-- The numbers that refinement assigns to the states are their classes. -/
theorem mem_zip_refine {n : Nat} :
    (p, n) ∈ A.states.zip A.refine.toList ↔ p < A.size ∧ A.classOf p = n := by
  rw [List.mem_iff_getElem?]
  simp only [List.getElem?_zip_eq_some, states, Array.getElem?_toList]
  constructor
  · rintro ⟨i, hi, hn⟩
    obtain ⟨hlt, rfl⟩ := List.getElem?_eq_some_iff.mp hi
    rw [List.length_range] at hlt
    rw [List.getElem_range] at *
    exact ⟨hlt, by rw [classOf, Array.getD_eq_getD_getElem?, hn, Option.getD_some]⟩
  · rintro ⟨hp, rfl⟩
    refine ⟨p, List.getElem?_range hp, ?_⟩
    have hp' : p < A.refine.size := by rwa [size_refine]
    rw [classOf, Array.getD_eq_getD_getElem?, Array.getElem?_eq_getElem hp', Option.getD_some]

theorem divides_stablePartition (A : Automaton L) : A.stablePartition.Divides A.states := by
  refine Partition.divides_ofAssignment List.nodup_range ?_
  rw [states, List.length_range]
  exact size_refine.symm

/-- The stable partition has the classes of refinement. -/
theorem classOf?_stablePartition_eq_iff (hp : p < A.size) (hq : q < A.size) :
    A.stablePartition.classOf? p = A.stablePartition.classOf? q ↔ A.classOf p = A.classOf q := by
  rw [A.divides_stablePartition.classOf?_eq_iff (mem_states.mpr hp), stablePartition,
    Partition.exists_shared_class_iff]
  simp only [mem_zip_refine, hp, hq, true_and]
  rw [exists_eq_left', eq_comm]

theorem bisimilar_classOf (hp : p < A.size) : Bisimilar A A.reduce p (A.classOf p) :=
  ⟨_, A.isBisimulation_reduce, hp, rfl⟩

theorem bisimilarInitials_reduce (A : Automaton L) : BisimilarInitials A A.reduce := by
  constructor
  · intro p hp
    exact ⟨A.classOf p, isInitial_reduce.mpr ⟨p, hp, rfl⟩,
      bisimilar_classOf (lt_size_of_isInitial hp)⟩
  · intro x hx
    obtain ⟨p, hp, rfl⟩ := isInitial_reduce.mp hx
    exact ⟨p, hp, bisimilar_classOf (lt_size_of_isInitial hp)⟩

/-- Bisimilar classes have bisimilar members, which are in one class. -/
theorem discerning_reduce (A : Automaton L) : A.reduce.Discerning := by
  intro x hx y hy hxy
  obtain ⟨p, hp, rfl⟩ := lt_size_reduce.mp hx
  obtain ⟨q, hq, rfl⟩ := lt_size_reduce.mp hy
  rw [classOf_eq_iff_bisimilar hp hq]
  exact ((bisimilar_classOf hp).trans hxy).trans (bisimilar_classOf hq).symm

/-- If no two states are bisimilar, every state is the only member of its class, and the classes
are numbered like the states. -/
theorem Discerning.classOf_eq_self (h : A.Discerning) (hp : p < A.size) : A.classOf p = p := by
  rw [classOf_eq]
  refine getD_classify_of_injOn (fun p hp q hq hsignature => ?_) hp
  refine h p hp q hq ((classOf_eq_iff_bisimilar hp hq).mp ?_)
  rw [classOf_eq, classOf_eq, getD_classify_eq_iff hp hq]
  exact hsignature

/-- An automaton without bisimilar states is not changed, unless it has names. -/
theorem Discerning.reduce_eq_self (h : A.Discerning) (hnames : A.names = []) : A.reduce = A := by
  refine eq_of_moves_iff ?_ (fun p => ?_) (fun p => ?_) (fun p l q => ?_)
    (names_ofParts.trans hnames.symm)
  · have hlt (c : Nat) : c < A.reduce.size ↔ c < A.size := by
      rw [lt_size_reduce]
      constructor
      · rintro ⟨p, hp, rfl⟩
        rwa [h.classOf_eq_self hp]
      · exact fun hc => ⟨c, hc, h.classOf_eq_self hc⟩
    exact Nat.le_antisymm (Nat.le_of_not_lt fun hlt' => Nat.lt_irrefl _ ((hlt _).mp hlt'))
      (Nat.le_of_not_lt fun hlt' => Nat.lt_irrefl _ ((hlt _).mpr hlt'))
  · rw [Bool.eq_iff_iff, isInitial_reduce]
    constructor
    · rintro ⟨q, hq, rfl⟩
      rwa [h.classOf_eq_self (lt_size_of_isInitial hq)]
    · exact fun hp => ⟨p, hp, h.classOf_eq_self (lt_size_of_isInitial hp)⟩
  · rw [Bool.eq_iff_iff, isTerminal_reduce]
    constructor
    · rintro ⟨q, hq, rfl⟩
      rwa [h.classOf_eq_self (lt_size_of_isTerminal hq)]
    · exact fun hp => ⟨p, hp, h.classOf_eq_self (lt_size_of_isTerminal hp)⟩
  · rw [moves_reduce]
    constructor
    · rintro ⟨p', q', hmove, rfl, rfl⟩
      rwa [h.classOf_eq_self hmove.start_lt, h.classOf_eq_self hmove.target_lt]
    · exact fun hmove =>
        ⟨p, q, hmove, h.classOf_eq_self hmove.start_lt, h.classOf_eq_self hmove.target_lt⟩

theorem Accessible.reduce (h : A.Accessible) : A.reduce.Accessible := by
  intro x hx
  obtain ⟨p, hp, rfl⟩ := lt_size_reduce.mp hx
  obtain ⟨i, w, hi, hrun⟩ := mem_accessible.mp (h p hp)
  exact mem_accessible.mpr ⟨A.classOf i, w, isInitial_reduce.mpr ⟨i, hi, rfl⟩, run_reduce hrun⟩

/-- Reduced automata are isomorphic exactly if the initial states are bisimilar. -/
theorem isomorphic_reduce_iff (hA : A.Accessible) (hB : B.Accessible) :
    Isomorphic A.reduce B.reduce ↔ BisimilarInitials A B := by
  rw [isomorphic_iff hA.reduce hB.reduce A.discerning_reduce B.discerning_reduce]
  constructor
  · exact fun h => (A.bisimilarInitials_reduce.trans h).trans B.bisimilarInitials_reduce.symm
  · exact fun h => (A.bisimilarInitials_reduce.symm.trans h).trans B.bisimilarInitials_reduce

end Automaton

end FiniteState
