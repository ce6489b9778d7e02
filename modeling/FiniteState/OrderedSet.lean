import FiniteState.Ordered
/-!
Finite sets over an ordered type, kept as strictly increasing lists.  Two such sets with the same
members are equal, so a set can serve as the identity of something, and listing a set always gives
its members in increasing order.
-/

namespace FiniteState

universe u v

variable {α : Type u} {β : Type v}

/-- A finite set, stored as its members in increasing order. -/
structure OrderedSet (α : Type u) [Ordered α] where
  /-- The members in increasing order. -/
  toList : List α
  increasing : toList.Pairwise Precedes

namespace OrderedSet

variable [Ordered α] [Ordered β]

instance [DecidableEq α] : DecidableEq (OrderedSet α) := fun s t =>
  decidable_of_iff (s.toList = t.toList) ⟨by
    intro h
    cases s
    cases t
    cases h
    rfl, congrArg toList⟩

instance : Membership α (OrderedSet α) :=
  ⟨fun s a => a ∈ s.toList⟩

theorem mem_toList {s : OrderedSet α} {a : α} : a ∈ s.toList ↔ a ∈ s :=
  Iff.rfl

def empty : OrderedSet α :=
  ⟨[], List.Pairwise.nil⟩

instance : EmptyCollection (OrderedSet α) := ⟨empty⟩

instance : Inhabited (OrderedSet α) := ⟨empty⟩

@[simp] theorem toList_empty : (∅ : OrderedSet α).toList = [] := rfl

@[simp] theorem not_mem_empty (a : α) : a ∉ (∅ : OrderedSet α) :=
  List.not_mem_nil

def size (s : OrderedSet α) : Nat :=
  s.toList.length

def isEmpty (s : OrderedSet α) : Bool :=
  s.toList.isEmpty

def contains (s : OrderedSet α) (a : α) : Bool :=
  s.toList.any (order · a == .eq)

theorem isEmpty_iff {s : OrderedSet α} : s.isEmpty = true ↔ ∀ a, a ∉ s :=
  List.isEmpty_iff.trans List.eq_nil_iff_forall_not_mem

theorem contains_iff {s : OrderedSet α} {a : α} : s.contains a = true ↔ a ∈ s := by
  simp only [contains, List.any_eq_true, beq_iff_eq, Ordered.order_eq_iff]
  exact ⟨fun ⟨_, hb, hba⟩ => hba ▸ hb, fun h => ⟨a, h, rfl⟩⟩

instance (a : α) (s : OrderedSet α) : Decidable (a ∈ s) :=
  decidable_of_iff _ contains_iff

/-- Put `a` into an increasing list, unless it is there already. -/
def insertInto (a : α) : List α → List α
  | [] => [a]
  | b :: rest =>
      match order a b with
      | .lt => a :: b :: rest
      | .eq => b :: rest
      | .gt => b :: insertInto a rest

theorem mem_insertInto {a b : α} {l : List α} :
    b ∈ insertInto a l ↔ b = a ∨ b ∈ l := by
  induction l with
  | nil => simp [insertInto]
  | cons head rest ih =>
      rw [insertInto]
      split
      · simp
      · rename_i h
        rw [Ordered.order_eq_iff.mp h]
        simp
      · simp [ih, or_left_comm]

theorem insertInto_increasing (a : α) {l : List α} (hl : l.Pairwise Precedes) :
    (insertInto a l).Pairwise Precedes := by
  induction l with
  | nil => simp [insertInto]
  | cons head rest ih =>
      obtain ⟨hhead, hrest⟩ := List.pairwise_cons.mp hl
      rw [insertInto]
      split
      · rename_i h
        refine List.pairwise_cons.mpr ⟨fun b hb => ?_, hl⟩
        rcases List.mem_cons.mp hb with rfl | hb
        · exact h
        · exact Precedes.trans h (hhead b hb)
      · exact hl
      · rename_i h
        refine List.pairwise_cons.mpr ⟨fun b hb => ?_, ih hrest⟩
        rcases mem_insertInto.mp hb with rfl | hb
        · exact order_eq_gt_iff.mp h
        · exact hhead b hb

/-- The set with `a` added. -/
def insert (s : OrderedSet α) (a : α) : OrderedSet α :=
  ⟨insertInto a s.toList, insertInto_increasing a s.increasing⟩

@[simp] theorem mem_insert {s : OrderedSet α} {a b : α} :
    b ∈ s.insert a ↔ b = a ∨ b ∈ s :=
  mem_insertInto

def ofList (l : List α) : OrderedSet α :=
  l.foldr (fun a s => s.insert a) ∅

theorem length_insertInto_of_not_mem {a : α} {l : List α} (ha : a ∉ l) :
    (insertInto a l).length = l.length + 1 := by
  induction l with
  | nil => rfl
  | cons b rest ih =>
      rw [insertInto]
      split
      · rfl
      · rename_i h
        exact absurd (Ordered.order_eq_iff.mp h ▸ List.mem_cons_self) ha
      · rw [List.length_cons, ih fun h => ha (List.mem_cons_of_mem b h), List.length_cons]

theorem size_insert_of_not_mem {s : OrderedSet α} {a : α} (ha : a ∉ s) :
    (s.insert a).size = s.size + 1 :=
  length_insertInto_of_not_mem ha

@[simp] theorem mem_ofList {l : List α} {a : α} : a ∈ ofList l ↔ a ∈ l := by
  induction l with
  | nil => simp [ofList]
  | cons head rest ih =>
      rw [ofList, List.foldr_cons, mem_insert, List.mem_cons]
      exact or_congr_right ih

def filter (p : α → Bool) (s : OrderedSet α) : OrderedSet α :=
  ⟨s.toList.filter p, s.increasing.filter p⟩

@[simp] theorem mem_filter {p : α → Bool} {s : OrderedSet α} {a : α} :
    a ∈ s.filter p ↔ a ∈ s ∧ p a = true :=
  List.mem_filter

/-- The members of both sets together. -/
def union (s t : OrderedSet α) : OrderedSet α :=
  s.toList.foldr (fun a r => r.insert a) t

@[simp] theorem mem_union {s t : OrderedSet α} {a : α} :
    a ∈ s.union t ↔ a ∈ s ∨ a ∈ t := by
  have h (l : List α) : a ∈ l.foldr (fun a r => r.insert a) t ↔ a ∈ l ∨ a ∈ t := by
    induction l with
    | nil => simp
    | cons head rest ih => rw [List.foldr_cons, mem_insert, ih, List.mem_cons, or_assoc]
  exact h s.toList

def difference (s t : OrderedSet α) : OrderedSet α :=
  s.filter fun a => !t.contains a

def symmetricDifference (s t : OrderedSet α) : OrderedSet α :=
  (s.difference t).union (t.difference s)

theorem mem_difference {s t : OrderedSet α} {a : α} :
    a ∈ s.difference t ↔ a ∈ s ∧ a ∉ t := by
  rw [difference, mem_filter, Bool.not_eq_true', ← Bool.not_eq_true, contains_iff]

theorem mem_symmetricDifference {s t : OrderedSet α} {a : α} :
    a ∈ s.symmetricDifference t ↔ a ∈ s ∧ a ∉ t ∨ a ∈ t ∧ a ∉ s := by
  simp [symmetricDifference, mem_difference]

def image (f : α → β) (s : OrderedSet α) : OrderedSet β :=
  ofList (s.toList.map f)

@[simp] theorem mem_image {f : α → β} {s : OrderedSet α} {b : β} :
    b ∈ s.image f ↔ ∃ a ∈ s, f a = b := by
  rw [image, mem_ofList, List.mem_map]
  rfl

theorem eq_of_increasing_of_mem_iff {l r : List α} (hl : l.Pairwise Precedes)
    (hr : r.Pairwise Precedes) (h : ∀ a, a ∈ l ↔ a ∈ r) : l = r := by
  induction l generalizing r with
  | nil => exact (List.eq_nil_iff_forall_not_mem.mpr fun a ha => by simpa using (h a).mpr ha).symm
  | cons a l ih =>
      cases r with
      | nil => simpa using h a
      | cons b r =>
          obtain ⟨ha, hl⟩ := List.pairwise_cons.mp hl
          have hb := (List.pairwise_cons.mp hr).1
          have hab : a = b := by
            rcases List.mem_cons.mp ((h a).mp List.mem_cons_self) with hab | har
            · exact hab
            · rcases List.mem_cons.mp ((h b).mpr List.mem_cons_self) with hba | hbl
              · exact hba.symm
              · exact absurd (ha b hbl) (hb a har).asymm
          subst hab
          refine congrArg (a :: ·) (ih hl (List.pairwise_cons.mp hr).2 fun c => ?_)
          have hc := h c
          simp only [List.mem_cons] at hc
          constructor
          · intro hcl
            exact (hc.mp (Or.inr hcl)).resolve_left (ha c hcl).ne.symm
          · intro hcr
            exact (hc.mpr (Or.inr hcr)).resolve_left (hb c hcr).ne.symm

/-- Sets with the same members are equal. -/
theorem eq_of_mem_iff {s t : OrderedSet α} (h : ∀ a, a ∈ s ↔ a ∈ t) : s = t := by
  have hlist : s.toList = t.toList :=
    eq_of_increasing_of_mem_iff s.increasing t.increasing h
  cases s
  cases t
  cases hlist
  rfl

theorem toList_eq_singleton_iff {s : OrderedSet α} {a : α} :
    s.toList = [a] ↔ ∀ b, b ∈ s ↔ b = a := by
  constructor
  · intro h b
    rw [← mem_toList, h, List.mem_singleton]
  · intro h
    refine eq_of_increasing_of_mem_iff s.increasing (List.pairwise_singleton _ _) fun b => ?_
    rw [List.mem_singleton]
    exact h b

/-- Sets are compared by their lists of members. -/
instance : Ordered (OrderedSet α) :=
  Ordered.byKey toList fun {s t} h => by
    cases s
    cases t
    cases h
    rfl

def commonMembers : List α → List α → List α
  | [], _ => []
  | a :: l, r =>
      match r.dropWhile fun b => order b a == .lt with
      | [] => []
      | b :: r => if order b a == .eq then a :: commonMembers l r else commonMembers l (b :: r)

theorem mem_dropWhile_precedes {l : List α} {a c : α} (hc : ¬ Precedes c a) :
    c ∈ l.dropWhile (fun b => order b a == .lt) ↔ c ∈ l := by
  induction l with
  | nil => rfl
  | cons b l ih =>
      rw [List.dropWhile_cons]
      split
      · rename_i h
        rw [ih, List.mem_cons]
        refine ⟨Or.inr, fun h' => h'.resolve_left ?_⟩
        rintro rfl
        exact hc (beq_iff_eq.mp h)
      · rfl

/-- What is left after dropping the values before `a` starts with a value that is not before `a`. -/
theorem not_precedes_of_dropWhile_eq {l r : List α} {a b : α}
    (h : l.dropWhile (fun b => order b a == .lt) = b :: r) : ¬ Precedes b a := by
  have hhead := List.head?_dropWhile_not (fun b => order b a == .lt) l
  rw [h] at hhead
  simpa [Precedes] using hhead

theorem mem_commonMembers {l r : List α} (hl : l.Pairwise Precedes) (hr : r.Pairwise Precedes)
    {c : α} : c ∈ commonMembers l r ↔ c ∈ l ∧ c ∈ r := by
  induction l generalizing r with
  | nil => simp [commonMembers]
  | cons a l ih =>
      obtain ⟨ha, htail⟩ := List.pairwise_cons.mp hl
      have hmem (hc : c ∈ a :: l) : c ∈ r.dropWhile (fun b => order b a == .lt) ↔ c ∈ r := by
        refine mem_dropWhile_precedes ?_
        rcases List.mem_cons.mp hc with rfl | hc
        · exact not_precedes_self c
        · exact (ha c hc).asymm
      have hdrop := hr.sublist (List.dropWhile_sublist (fun b => order b a == .lt))
      rw [commonMembers]
      split
      · rename_i h
        rw [h] at hmem
        exact ⟨fun hc => absurd hc List.not_mem_nil, fun hc => (hmem hc.1).mpr hc.2⟩
      · rename_i b rest h
        rw [h] at hmem hdrop
        obtain ⟨hb, hrest⟩ := List.pairwise_cons.mp hdrop
        split
        · rename_i hab
          have hba : b = a := Ordered.order_eq_iff.mp (beq_iff_eq.mp hab)
          rw [List.mem_cons, ih htail hrest]
          constructor
          · rintro (rfl | ⟨hc, hc'⟩)
            · exact ⟨List.mem_cons_self, (hmem List.mem_cons_self).mp (hba ▸ List.mem_cons_self)⟩
            · exact ⟨List.mem_cons_of_mem a hc,
                (hmem (List.mem_cons_of_mem a hc)).mp (List.mem_cons_of_mem b hc')⟩
          · rintro ⟨hc, hc'⟩
            rcases List.mem_cons.mp hc with hca | hcl
            · exact Or.inl hca
            · refine Or.inr ⟨hcl, ?_⟩
              exact (List.mem_cons.mp ((hmem hc).mpr hc')).resolve_left
                fun hcb => (ha c hcl).ne (hba.symm.trans hcb.symm)
        · rename_i hab
          rw [ih htail hdrop]
          constructor
          · rintro ⟨hc, hc'⟩
            exact ⟨List.mem_cons_of_mem a hc, (hmem (List.mem_cons_of_mem a hc)).mp hc'⟩
          · rintro ⟨hc, hc'⟩
            refine ⟨(List.mem_cons.mp hc).resolve_left ?_, (hmem hc).mpr hc'⟩
            rintro rfl
            rcases List.mem_cons.mp ((hmem hc).mpr hc') with rfl | hcr
            · exact hab (beq_iff_eq.mpr (order_self c))
            · exact not_precedes_of_dropWhile_eq h (hb c hcr)

theorem commonMembers_sublist (l r : List α) : (commonMembers l r).Sublist l := by
  induction l generalizing r with
  | nil => simp [commonMembers]
  | cons a l ih =>
      rw [commonMembers]
      split
      · exact List.nil_sublist _
      · split
        · exact (ih _).cons_cons a
        · exact (ih _).cons a

def inter (s t : OrderedSet α) : OrderedSet α :=
  ⟨commonMembers s.toList t.toList, s.increasing.sublist (commonMembers_sublist _ _)⟩

@[simp] theorem mem_inter {s t : OrderedSet α} {a : α} : a ∈ s.inter t ↔ a ∈ s ∧ a ∈ t :=
  mem_commonMembers s.increasing t.increasing

def range (n : Nat) : OrderedSet Nat :=
  ⟨List.range n, List.pairwise_lt_range.imp precedes_iff_lt.mpr⟩

@[simp] theorem mem_range {m n : Nat} : m ∈ range n ↔ m < n :=
  List.mem_range

theorem toList_nodup (s : OrderedSet α) : s.toList.Nodup :=
  s.increasing.imp Precedes.ne

end OrderedSet

end FiniteState
