import Mathlib.Data.List.Induction
import Mathlib.Data.List.Nodup
import Mathlib.Data.List.Perm.Subperm
/-!
First occurrences.  `eraseDups` keeps the first occurrence of every value of a list.  It is
described by what one more value at the end changes, and with that it commutes with filtering,
with mapping and with expanding every value into a list.
-/

namespace FiniteState

universe u v

variable {α : Type u} {β : Type v} [DecidableEq α] [DecidableEq β]

theorem eraseDups_concat (l : List α) (a : α) :
    (l ++ [a]).eraseDups = if a ∈ l then l.eraseDups else l.eraseDups ++ [a] := by
  rw [List.eraseDups_append]
  by_cases ha : a ∈ l
  · simp [List.removeAll, ha]
  · simp [List.removeAll, ha, List.eraseDups_cons]

theorem nodup_eraseDups (l : List α) : l.eraseDups.Nodup := by
  induction l using List.reverseRecOn with
  | nil => exact List.nodup_nil
  | append_singleton l a ih =>
      rw [eraseDups_concat]
      split
      · exact ih
      · rename_i ha
        rw [← List.concat_eq_append]
        exact ih.concat fun h => ha (List.mem_eraseDups.mp h)

theorem eraseDups_eq_self_of_nodup {l : List α} (hl : l.Nodup) : l.eraseDups = l := by
  induction l using List.reverseRecOn with
  | nil => rfl
  | append_singleton l a ih =>
      have ha : a ∉ l := fun h =>
        List.disjoint_of_nodup_append hl h (List.mem_singleton_self a)
      rw [eraseDups_concat, if_neg ha, ih (List.Nodup.of_append_left hl)]

theorem eraseDups_filter (p : α → Bool) (l : List α) :
    (l.filter p).eraseDups = l.eraseDups.filter p := by
  induction l using List.reverseRecOn with
  | nil => rfl
  | append_singleton l a ih =>
      rw [List.filter_append, eraseDups_concat]
      by_cases hp : p a = true
      · rw [List.filter_singleton, hp, cond_true, eraseDups_concat, ih]
        by_cases ha : a ∈ l
        · rw [if_pos (List.mem_filter.mpr ⟨ha, hp⟩), if_pos ha]
        · rw [if_neg fun h => ha (List.mem_filter.mp h).1, if_neg ha, List.filter_append,
            List.filter_singleton, hp, cond_true]
      · rw [List.filter_singleton, eq_false_of_ne_true hp, cond_false, List.append_nil, ih]
        split
        · rfl
        · rw [List.filter_append, List.filter_singleton, eq_false_of_ne_true hp, cond_false,
            List.append_nil]

/-- What repeats in a list repeats among the images as well. -/
theorem eraseDups_map_eraseDups (f : α → β) (l : List α) :
    (l.eraseDups.map f).eraseDups = (l.map f).eraseDups := by
  induction l using List.reverseRecOn with
  | nil => rfl
  | append_singleton l a ih =>
      rw [List.map_append, List.map_singleton, eraseDups_concat (l.map f), eraseDups_concat l]
      by_cases ha : a ∈ l
      · rw [if_pos ha, if_pos (List.mem_map_of_mem ha), ih]
      · rw [if_neg ha, List.map_append, List.map_singleton, eraseDups_concat, ih]
        simp only [List.mem_map, List.mem_eraseDups]

/-- Values that occurred before do not count. -/
theorem eraseDups_append_of_subset {l r : List α} (h : r ⊆ l) :
    (l ++ r).eraseDups = l.eraseDups := by
  have hnil : r.removeAll l = [] := by
    apply List.filter_eq_nil_iff.mpr
    intro a ha
    simp [h ha]
  rw [List.eraseDups_append, hnil, List.eraseDups_nil, List.append_nil]

/-- What was kept so far decides what is kept of the rest. -/
theorem eraseDups_append_congr {l l' : List α} (h : l.eraseDups = l'.eraseDups) (r : List α) :
    (l ++ r).eraseDups = (l' ++ r).eraseDups := by
  have hmem (a : α) : a ∈ l ↔ a ∈ l' := by
    rw [← List.mem_eraseDups, h, List.mem_eraseDups]
  have hremove : r.removeAll l = r.removeAll l' := by
    apply List.filter_congr
    intro a _
    simp only [List.elem_eq_mem, hmem a]
  rw [List.eraseDups_append, List.eraseDups_append, h, hremove]

/-- Expanding a value a second time does not add anything. -/
theorem eraseDups_append_flatMap_eraseDups (s : List β) (f : α → List β) (l : List α) :
    (s ++ l.eraseDups.flatMap f).eraseDups = (s ++ l.flatMap f).eraseDups := by
  induction l using List.reverseRecOn with
  | nil => rfl
  | append_singleton l a ih =>
      rw [eraseDups_concat, List.flatMap_append, List.flatMap_singleton, ← List.append_assoc]
      by_cases ha : a ∈ l
      · rw [if_pos ha, ih, eraseDups_append_of_subset fun b hb =>
          List.mem_append_right s (List.mem_flatMap.mpr ⟨a, ha, hb⟩)]
      · rw [if_neg ha, List.flatMap_append, List.flatMap_singleton, ← List.append_assoc]
        exact eraseDups_append_congr ih (f a)

theorem eraseDups_prefix_append (l r : List α) : l.eraseDups <+: (l ++ r).eraseDups := by
  rw [List.eraseDups_append]
  exact List.prefix_append _ _

theorem eraseDups_subperm (l : List α) : l.eraseDups.Subperm l :=
  List.subperm_of_subset (nodup_eraseDups l) fun _ ha => List.mem_eraseDups.mp ha

/-- Only a list without repetitions has as many first occurrences as values. -/
theorem nodup_of_length_le_eraseDups {l : List α} (h : l.length ≤ l.eraseDups.length) : l.Nodup :=
  ((eraseDups_subperm l).perm_of_length_le h).nodup_iff.mp (nodup_eraseDups l)

/-- A map that leaves as many first occurrences as there were is injective on the list. -/
theorem injOn_of_length_eraseDups_le {f : α → β} {l : List α}
    (h : l.eraseDups.length ≤ (l.map f).eraseDups.length) :
    ∀ a ∈ l, ∀ b ∈ l, f a = f b → a = b := by
  have hnodup : (l.eraseDups.map f).Nodup := by
    apply nodup_of_length_le_eraseDups
    rwa [List.length_map, eraseDups_map_eraseDups]
  intro a ha b hb
  exact List.inj_on_of_nodup_map hnodup (List.mem_eraseDups.mpr ha) (List.mem_eraseDups.mpr hb)

theorem eraseDups_map_of_injOn {f : α → β} {l : List α}
    (hf : ∀ a ∈ l, ∀ b ∈ l, f a = f b → a = b) :
    (l.map f).eraseDups = l.eraseDups.map f := by
  rw [← eraseDups_map_eraseDups]
  refine eraseDups_eq_self_of_nodup (List.Nodup.map_on ?_ (nodup_eraseDups l))
  intro a ha b hb hab
  exact hf a (List.mem_eraseDups.mp ha) b (List.mem_eraseDups.mp hb) hab

end FiniteState
