import FiniteState.Partition
import Mathlib.Data.List.Nodup
import Mathlib.Data.List.Perm.Subperm
/-!
When a list of classes is a partition.  If the classes are disjoint, an element has one class at
most, so two elements have the same class number exactly if they share a class.  Grouping elements
by assigned numbers gives such classes.

Partitions are compared by counting their classes and looking up those of the left one.  This is
equality up to the order of the classes as long as the left one has no class twice; otherwise it
depends on the side.
-/

namespace FiniteState

universe u

variable {α : Type u} [Ordered α]

namespace Partition

/-- The classes divide the elements among them: none is empty, no two of them overlap, and they
have exactly the elements as members. -/
structure Divides (p : Partition α) (elements : List α) : Prop where
  nonempty : ∀ c ∈ p.classes, ∃ a, a ∈ c
  disjoint : p.classes.Pairwise fun c d => ∀ a ∈ c, a ∉ d
  covers : ∀ a, a ∈ elements ↔ ∃ c ∈ p.classes, a ∈ c

section Divided

variable {p : Partition α} {elements : List α} {a b : α} {i : Nat}

/-- The class number of an element is the position of the class that has it. -/
theorem Divides.classOf?_eq_some_iff (h : p.Divides elements) :
    p.classOf? a = some i ↔ ∃ c, p.classes[i]? = some c ∧ a ∈ c := by
  rw [classOf?, List.findIdx?_eq_some_iff_getElem]
  simp only [OrderedSet.contains_iff]
  constructor
  · rintro ⟨hi, ha, -⟩
    exact ⟨_, List.getElem?_eq_getElem hi, ha⟩
  · rintro ⟨c, hc, ha⟩
    obtain ⟨hi, rfl⟩ := List.getElem?_eq_some_iff.mp hc
    refine ⟨hi, ha, fun j hji hj => ?_⟩
    exact List.pairwise_iff_getElem.mp h.disjoint j i _ hi hji a hj ha

/-- No class occurs twice, as two equal classes would overlap. -/
theorem Divides.nodup_classes (h : p.Divides elements) : p.classes.Nodup := by
  refine h.disjoint.imp_of_mem fun {c d} hc _ hdisjoint heq => ?_
  obtain ⟨a, ha⟩ := h.nonempty c hc
  exact hdisjoint a ha (heq ▸ ha)

/-- Elements have the same class number exactly if they share a class. -/
theorem Divides.classOf?_eq_iff (h : p.Divides elements) (ha : a ∈ elements) :
    p.classOf? a = p.classOf? b ↔ ∃ c ∈ p.classes, a ∈ c ∧ b ∈ c := by
  constructor
  · intro heq
    obtain ⟨c, hc, hac⟩ := (h.covers a).mp ha
    obtain ⟨i, hi⟩ := List.mem_iff_getElem?.mp hc
    obtain ⟨d, hd, hbd⟩ := h.classOf?_eq_some_iff.mp
      (heq.symm.trans (h.classOf?_eq_some_iff.mpr ⟨c, hi, hac⟩))
    rw [hi, Option.some.injEq] at hd
    exact ⟨c, hc, hac, hd ▸ hbd⟩
  · rintro ⟨c, hc, hac, hbc⟩
    obtain ⟨i, hi⟩ := List.mem_iff_getElem?.mp hc
    exact (h.classOf?_eq_some_iff.mpr ⟨c, hi, hac⟩).trans
      (h.classOf?_eq_some_iff.mpr ⟨c, hi, hbc⟩).symm

end Divided

section Assignment

variable {elements : List α} {numbers : List Nat} {a b : α} {n : Nat}

/-- The elements that the number `n` is assigned to. -/
def assigned (elements : List α) (numbers : List Nat) (n : Nat) : OrderedSet α :=
  OrderedSet.ofList (((elements.zip numbers).filter fun pair => pair.2 == n).map Prod.fst)

theorem mem_assigned : a ∈ assigned elements numbers n ↔ (a, n) ∈ elements.zip numbers := by
  simp [assigned]

/-- There is one class for each number that is used. -/
theorem classes_ofAssignment (elements : List α) (numbers : List Nat) :
    (ofAssignment elements numbers).classes =
      (OrderedSet.ofList ((elements.zip numbers).map Prod.snd)).toList.map
        (assigned elements numbers) :=
  rfl

theorem assigned_mem_classes (h : (a, n) ∈ elements.zip numbers) :
    assigned elements numbers n ∈ (ofAssignment elements numbers).classes := by
  rw [classes_ofAssignment]
  refine List.mem_map_of_mem ?_
  rw [OrderedSet.mem_toList, OrderedSet.mem_ofList]
  exact List.mem_map_of_mem h

theorem exists_assigned_of_mem_classes {c : OrderedSet α}
    (h : c ∈ (ofAssignment elements numbers).classes) :
    ∃ a n, (a, n) ∈ elements.zip numbers ∧ c = assigned elements numbers n := by
  rw [classes_ofAssignment, List.mem_map] at h
  obtain ⟨n, hn, rfl⟩ := h
  rw [OrderedSet.mem_toList, OrderedSet.mem_ofList, List.mem_map] at hn
  obtain ⟨⟨a, n⟩, hpair, rfl⟩ := hn
  exact ⟨a, n, hpair, rfl⟩

/-- Elements share a class exactly if they have the same number. -/
theorem exists_shared_class_iff :
    (∃ c ∈ (ofAssignment elements numbers).classes, a ∈ c ∧ b ∈ c) ↔
      ∃ n, (a, n) ∈ elements.zip numbers ∧ (b, n) ∈ elements.zip numbers := by
  constructor
  · rintro ⟨c, hc, ha, hb⟩
    obtain ⟨_, n, -, rfl⟩ := exists_assigned_of_mem_classes hc
    exact ⟨n, mem_assigned.mp ha, mem_assigned.mp hb⟩
  · rintro ⟨n, ha, hb⟩
    exact ⟨_, assigned_mem_classes ha, mem_assigned.mpr ha, mem_assigned.mpr hb⟩

/-- If every element has one number, grouping divides the elements. -/
theorem divides_ofAssignment (hnodup : elements.Nodup)
    (hlength : elements.length = numbers.length) :
    (ofAssignment elements numbers).Divides elements := by
  have hfst : (elements.zip numbers).map Prod.fst = elements :=
    List.map_fst_zip (Nat.le_of_eq hlength)
  refine ⟨?_, ?_, fun a => ⟨?_, ?_⟩⟩
  · intro c hc
    obtain ⟨a, n, hpair, rfl⟩ := exists_assigned_of_mem_classes hc
    exact ⟨a, mem_assigned.mpr hpair⟩
  · rw [classes_ofAssignment, List.pairwise_map]
    refine (OrderedSet.toList_nodup _).imp fun {m n} hne a hm hn => hne ?_
    rw [← hfst] at hnodup
    have hpair := List.inj_on_of_nodup_map hnodup (mem_assigned.mp hm) (mem_assigned.mp hn) rfl
    exact congrArg Prod.snd hpair
  · intro ha
    rw [← hfst, List.mem_map] at ha
    obtain ⟨⟨a, n⟩, hpair, rfl⟩ := ha
    exact ⟨_, assigned_mem_classes hpair, mem_assigned.mpr hpair⟩
  · rintro ⟨c, hc, ha⟩
    obtain ⟨_, n, -, rfl⟩ := exists_assigned_of_mem_classes hc
    exact (List.of_mem_zip (mem_assigned.mp ha)).1

end Assignment

section Equality

variable [DecidableEq α] {p q r : Partition α} {elements : List α}

theorem beq_iff : (p == q) = true ↔ p.size = q.size ∧ ∀ c ∈ p.classes, c ∈ q.classes := by
  change (p.size == q.size && p.classes.all fun c => decide (c ∈ q.classes)) = true ↔ _
  simp

protected theorem beq_refl (p : Partition α) : (p == p) = true :=
  beq_iff.mpr ⟨rfl, fun _ hc => hc⟩

protected theorem beq_trans (hpq : (p == q) = true) (hqr : (q == r) = true) : (p == r) = true := by
  obtain ⟨hsize, hsub⟩ := beq_iff.mp hpq
  obtain ⟨hsize', hsub'⟩ := beq_iff.mp hqr
  exact beq_iff.mpr ⟨hsize.trans hsize', fun c hc => hsub' c (hsub c hc)⟩

theorem beq_of_perm (h : p.classes.Perm q.classes) : (p == q) = true :=
  beq_iff.mpr ⟨h.length_eq, fun _ => h.mem_iff.mp⟩

/-- Without a class that occurs twice there is no room for a class that occurs on the right only. -/
theorem beq_iff_perm (hnodup : p.classes.Nodup) : (p == q) = true ↔ p.classes.Perm q.classes := by
  refine ⟨fun h => ?_, beq_of_perm⟩
  obtain ⟨hsize, hsub⟩ := beq_iff.mp h
  have hsubperm : p.classes.Subperm q.classes := List.subperm_of_subset hnodup hsub
  exact hsubperm.perm_of_length_le (Nat.le_of_eq hsize.symm)

/-- Comparing partitions is reflexive and transitive, and if no class occurs twice on the left, it
is symmetric as well and disregards only the order of the classes. -/
theorem equality_is_equivalence_unless_classes_repeat (p q r : Partition α) :
    (p == p) = true ∧
    ((p == q) = true → (q == r) = true → (p == r) = true) ∧
    (p.classes.Nodup → (p == q) = true → (q == p) = true) ∧
    (p.classes.Nodup → ((p == q) = true ↔ p.classes.Perm q.classes)) ∧
    ∀ elements, p.Divides elements → p.classes.Nodup := by
  refine ⟨p.beq_refl, Partition.beq_trans, fun hnodup h => ?_, beq_iff_perm, fun _ h => ?_⟩
  · exact beq_of_perm ((beq_iff_perm hnodup).mp h).symm
  · exact h.nodup_classes

/-- The even and the odd numbers, grouped by assigned numbers or given as classes. -/
theorem equality_of_parities_is_symmetric :
    (ofAssignment [0, 1, 2, 3] [2, 0, 2, 0] == ofClasses [[2, 0], [1, 3]]) = true ∧
      (ofClasses [[2, 0], [1, 3]] == ofAssignment [0, 1, 2, 3] [2, 0, 2, 0]) = true := by
  have hdivides : (ofAssignment [0, 1, 2, 3] [2, 0, 2, 0]).Divides [0, 1, 2, 3] :=
    divides_ofAssignment (by decide) rfl
  have hlaws := equality_is_equivalence_unless_classes_repeat
    (ofAssignment [0, 1, 2, 3] [2, 0, 2, 0]) (ofClasses [[2, 0], [1, 3]])
    (ofClasses [[2, 0], [1, 3]])
  have hequal : (ofAssignment [0, 1, 2, 3] [2, 0, 2, 0] == ofClasses [[2, 0], [1, 3]]) = true := by
    decide +kernel
  exact ⟨hequal, hlaws.2.2.1 (hlaws.2.2.2.2 _ hdivides) hequal⟩

/-- Two empty classes are found among an empty one and another one, but not the other way round, and
so are two equal classes that were assigned different numbers. -/
theorem equality_depends_on_the_side_if_classes_repeat :
    ((ofClasses [[], []] == ofClasses [[], [0]]) = true ∧
      (ofClasses [[], [0]] == ofClasses [[], []]) = false) ∧
    (ofAssignment [0, 0] [0, 1] == ofAssignment [0, 1] [0, 1]) = true ∧
      (ofAssignment [0, 1] [0, 1] == ofAssignment [0, 0] [0, 1]) = false := by
  decide +kernel

end Equality

end Partition

end FiniteState
