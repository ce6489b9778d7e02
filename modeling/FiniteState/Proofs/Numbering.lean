import FiniteState.Numbering
import FiniteState.Proofs.FirstOccurrence
import Mathlib.Data.List.Basic
import Std.Data.TreeMap.Lemmas
/-!
What values are numbered with.  A table of numbers is described by the list of the values in the
order of their numbers.  The position of a value is where it stands in the list, and its number by
first occurrences is its position among the first occurrences.
-/

namespace FiniteState

universe u v

/-- In a list without repetitions a value has one place. -/
theorem place_unique {α : Type u} {values : List α} (h : values.Nodup) {x y : Nat} {a : α}
    (hx : values[x]? = some a) (hy : values[y]? = some a) : x = y :=
  (List.getElem?_inj (List.getElem?_eq_some_iff.mp hx).1 h).mp (hx.trans hy.symm)

variable {α : Type u} [Ordered α]

/-- The table gives every value of the list its position, and no other value a number. -/
structure Numbers (known : Std.TreeMap α Nat order) (values : List α) : Prop where
  getElem?_eq : ∀ (a : α) (i : Nat), known[a]? = some i ↔ values[i]? = some a
  size_eq : known.size = values.length

theorem numbers_nil : Numbers (∅ : Std.TreeMap α Nat order) [] :=
  ⟨fun a i => by simp, by simp⟩

namespace Numbers

variable {known : Std.TreeMap α Nat order} {values : List α}

theorem nodup (h : Numbers known values) : values.Nodup := by
  rw [List.nodup_iff_injective_getElem]
  intro i j hij
  have hi := (h.getElem?_eq values[i.1] i).mpr (List.getElem?_eq_getElem i.2)
  have hj := (h.getElem?_eq values[j.1] j).mpr (List.getElem?_eq_getElem j.2)
  dsimp only at hij
  rw [hij, hj] at hi
  exact Fin.ext (Option.some.inj hi).symm

theorem getElem?_eq_none_iff (h : Numbers known values) {a : α} :
    known[a]? = none ↔ a ∉ values := by
  rw [List.mem_iff_getElem?, Option.eq_none_iff_forall_ne_some, not_exists]
  exact forall_congr' fun i => not_congr (h.getElem?_eq a i)

/-- A value without a number gets the next one. -/
theorem insert (h : Numbers known values) {a : α} (ha : a ∉ values) :
    Numbers (known.insert a known.size) (values ++ [a]) := by
  constructor
  · intro b i
    rw [Std.TreeMap.getElem?_insert, List.getElem?_append, h.size_eq]
    by_cases hab : a = b
    · subst hab
      rw [if_pos (Ordered.order_eq_iff.mpr rfl), Option.some.injEq]
      constructor
      · rintro rfl
        simp
      · split
        · exact fun hi => absurd (List.mem_of_getElem? hi) ha
        · rename_i hi
          rw [List.getElem?_singleton]
          split
          · omega
          · simp
    · rw [if_neg fun hcmp => hab (Ordered.order_eq_iff.mp hcmp), h.getElem?_eq]
      split
      · rfl
      · rename_i hi
        rw [List.getElem?_eq_none (Nat.le_of_not_lt hi), List.getElem?_singleton]
        split <;> simp [hab]
  · rw [Std.TreeMap.size_insert, Std.TreeMap.contains_eq_isSome_getElem?,
      h.getElem?_eq_none_iff.mpr ha, List.length_append, h.size_eq]
    rfl

end Numbers

theorem numbers_positions {values : List α} (h : values.Nodup) :
    Numbers (positions values) values := by
  induction values using List.reverseRecOn with
  | nil => exact numbers_nil
  | append_singleton values a ih =>
      have ha : a ∉ values := fun hmem =>
        List.disjoint_of_nodup_append h hmem (List.mem_singleton_self a)
      have hvalues := ih (List.Nodup.of_append_left h)
      have hinsert := hvalues.insert ha
      rw [hvalues.size_eq] at hinsert
      have hconcat : positions (values ++ [a]) = (positions values).insert a values.length := by
        simp [positions, List.zipIdx_append]
      rwa [hconcat]

section FirstOccurrence

variable [DecidableEq α] {values : List α}

theorem Numbers.getElem?_eq_idxOf {known : Std.TreeMap α Nat order} (h : Numbers known values)
    {a : α} (ha : a ∈ values) : known[a]? = some (values.idxOf a) :=
  (h.getElem?_eq a _).mpr (List.getElem?_idxOf ha)

theorem Numbers.numberFrom_eq {known : Std.TreeMap α Nat order} {firsts : List α}
    (h : Numbers known firsts) (values : List α) :
    numberFrom known values = values.map fun a => (firsts ++ values).eraseDups.idxOf a := by
  induction values generalizing known firsts with
  | nil => rfl
  | cons a rest ih =>
      have hfirsts := eraseDups_eq_self_of_nodup h.nodup
      rw [numberFrom, List.map_cons]
      by_cases ha : a ∈ firsts
      · have hrest : (firsts ++ a :: rest).eraseDups = (firsts ++ rest).eraseDups := by
          rw [← List.singleton_append, ← List.append_assoc]
          exact eraseDups_append_congr (by rw [eraseDups_concat, if_pos ha]) rest
        have hprefix := eraseDups_prefix_append firsts rest
        rw [hfirsts] at hprefix
        rw [h.getElem?_eq_idxOf ha, hrest, ← hprefix.idxOf_eq_of_mem ha]
        exact congrArg _ (ih h)
      · have hinsert := h.insert ha
        have hprefix := eraseDups_prefix_append (firsts ++ [a]) rest
        rw [eraseDups_eq_self_of_nodup hinsert.nodup] at hprefix
        have hnumber : (firsts ++ [a]).idxOf a = known.size := by
          rw [List.idxOf_append_of_notMem ha, h.size_eq, List.idxOf_cons_self, Nat.add_zero]
        rw [h.getElem?_eq_none_iff.mpr ha, List.append_cons,
          ← hprefix.idxOf_eq_of_mem (List.mem_append_right firsts (List.mem_singleton_self a)),
          hnumber]
        exact congrArg _ (ih hinsert)

/-- A value is numbered by its position among the first occurrences. -/
theorem numberByFirst_eq (values : List α) :
    numberByFirst values = values.map fun a => values.eraseDups.idxOf a :=
  numbers_nil.numberFrom_eq values

@[simp] theorem length_numberByFirst (values : List α) :
    (numberByFirst values).length = values.length := by
  rw [numberByFirst_eq, List.length_map]

omit [Ordered α] in
/-- Exactly the occurrences of one value get the same number. -/
theorem idxOf_eraseDups_inj {a b : α} (ha : a ∈ values) :
    values.eraseDups.idxOf a = values.eraseDups.idxOf b ↔ a = b :=
  List.idxOf_inj (List.mem_eraseDups.mpr ha)

/-- Values that are renamed without being identified keep their numbers. -/
theorem numberByFirst_map {β : Type v} [Ordered β] [DecidableEq β] {f : α → β}
    (hf : ∀ a ∈ values, ∀ b ∈ values, f a = f b → a = b) :
    numberByFirst (values.map f) = numberByFirst values := by
  rw [numberByFirst_eq, numberByFirst_eq, List.map_map, eraseDups_map_of_injOn hf]
  apply List.map_congr_left
  intro a ha
  have hmem : a ∈ values.eraseDups := List.mem_eraseDups.mpr ha
  have hmap : (values.eraseDups.map f)[values.eraseDups.idxOf a]? = some (f a) := by
    rw [List.getElem?_map, List.getElem?_idxOf hmem, Option.map_some]
  have hnodup : (values.eraseDups.map f).Nodup := by
    rw [← eraseDups_map_of_injOn hf]
    exact nodup_eraseDups _
  refine place_unique hnodup ?_ hmap
  rw [Function.comp_apply, List.getElem?_idxOf (List.mem_map_of_mem hmem)]

/-- Numbers keep themselves. -/
theorem numberByFirst_numberByFirst (values : List α) :
    numberByFirst (numberByFirst values) = numberByFirst values := by
  rw [numberByFirst_eq values, numberByFirst_map fun a ha b _ => (idxOf_eraseDups_inj ha).mp,
    numberByFirst_eq]

omit [Ordered α] in
/-- The positions in a list without repetitions, in the order of the list. -/
theorem map_idxOf_of_nodup (h : values.Nodup) :
    values.map values.idxOf = List.range values.length := by
  apply List.ext_getElem (by simp)
  intro i hi _
  rw [List.getElem_map, List.getElem_range]
  exact h.idxOf_getElem i _

/-- The numbers occur for the first time in the order of counting. -/
theorem eraseDups_numberByFirst (values : List α) :
    (numberByFirst values).eraseDups = List.range values.eraseDups.length := by
  rw [numberByFirst_eq, eraseDups_map_of_injOn fun a ha b _ => (idxOf_eraseDups_inj ha).mp]
  exact map_idxOf_of_nodup (nodup_eraseDups values)

end FirstOccurrence

end FiniteState
