/-!
Linear orders given by a three-way comparison.  The comparison decides equality, is
antisymmetric under swapping, and its strict part is transitive.  Instances cover numbers,
characters, texts, optional values (the absent value comes first) and pairs (compared
lexicographically).
-/

namespace FiniteState

universe u v

/-- A type whose values are linearly ordered by `order`. -/
class Ordered (α : Type u) where
  /-- The position of the first value relative to the second one. -/
  order : α → α → Ordering
  /-- Two values compare as equal exactly if they are equal. -/
  order_eq_iff : ∀ {a b : α}, order a b = .eq ↔ a = b
  /-- Swapping the values swaps the outcome. -/
  order_swap : ∀ a b : α, order b a = (order a b).swap
  /-- The strict part is transitive. -/
  order_trans : ∀ {a b c : α}, order a b = .lt → order b c = .lt → order a c = .lt

export Ordered (order)

variable {α : Type u} {β : Type v}

/-- `Precedes a b` says that `a` comes strictly before `b`. -/
def Precedes [Ordered α] (a b : α) : Prop :=
  order a b = .lt

instance [Ordered α] (a b : α) : Decidable (Precedes a b) :=
  inferInstanceAs (Decidable (order a b = .lt))

theorem order_self [Ordered α] (a : α) : order a a = .eq :=
  Ordered.order_eq_iff.mpr rfl

theorem Precedes.trans [Ordered α] {a b c : α} (hab : Precedes a b)
    (hbc : Precedes b c) : Precedes a c :=
  Ordered.order_trans hab hbc

theorem not_precedes_self [Ordered α] (a : α) : ¬ Precedes a a := by
  simp [Precedes, order_self]

theorem Precedes.ne [Ordered α] {a b : α} (hab : Precedes a b) : a ≠ b := by
  rintro rfl
  exact not_precedes_self a hab

theorem Precedes.asymm [Ordered α] {a b : α} (hab : Precedes a b) :
    ¬ Precedes b a :=
  fun hba => not_precedes_self a (hab.trans hba)

theorem order_eq_gt_iff [Ordered α] {a b : α} : order a b = .gt ↔ Precedes b a := by
  rw [Precedes, Ordered.order_swap a b]
  cases order a b <;> decide

theorem precedes_or_eq_or_precedes [Ordered α] (a b : α) :
    Precedes a b ∨ a = b ∨ Precedes b a := by
  cases h : order a b with
  | lt => exact Or.inl h
  | eq => exact Or.inr (Or.inl (Ordered.order_eq_iff.mp h))
  | gt => exact Or.inr (Or.inr (order_eq_gt_iff.mp h))

/-- The comparison of an order that the standard library already knows. -/
@[reducible] def Ordered.ofCompare (compare : α → α → Ordering)
    [Std.TransCmp compare] [Std.LawfulEqCmp compare] : Ordered α where
  order := compare
  order_eq_iff := Std.LawfulEqCmp.compare_eq_iff_eq
  order_swap _ _ := Std.OrientedCmp.eq_swap
  order_trans := Std.TransCmp.lt_trans

instance : Ordered Nat := Ordered.ofCompare compare

instance : Ordered Char := Ordered.ofCompare compare

instance : Ordered String := Ordered.ofCompare compare

instance : Ordered Bool := Ordered.ofCompare compare

/-- The order as the standard library wants it for its search trees. -/
instance [Ordered α] : Std.TransCmp (order : α → α → Ordering) where
  eq_swap {a b} := Ordered.order_swap b a
  isLE_trans {a b c} hab hbc := by
    rcases precedes_or_eq_or_precedes a b with h | rfl | h
    · rcases precedes_or_eq_or_precedes b c with h' | rfl | h'
      · simp [show order a c = .lt from h.trans h']
      · exact hab
      · simp [order_eq_gt_iff.mpr h'] at hbc
    · exact hbc
    · simp [order_eq_gt_iff.mpr h] at hab

instance [Ordered α] : Std.LawfulEqCmp (order : α → α → Ordering) where
  eq_of_compare := Ordered.order_eq_iff.mp

/-- The absent value comes first, present values keep their order. -/
def orderOption [Ordered α] : Option α → Option α → Ordering
  | none, none => .eq
  | none, some _ => .lt
  | some _, none => .gt
  | some a, some b => order a b

instance [Ordered α] : Ordered (Option α) where
  order := orderOption
  order_eq_iff {a b} := by
    cases a <;> cases b <;> simp [orderOption]
  order_swap
    | none, none => rfl
    | none, some _ => rfl
    | some _, none => rfl
    | some a, some b => Ordered.order_swap a b
  order_trans {a b c} := by
    cases a <;> cases b <;> cases c <;> simp [orderOption]
    exact Ordered.order_trans

/-- Compare by two keys, the second of which decides only between equal first keys. -/
def orderThen [Ordered α] [Ordered β] (a b : α × β) : Ordering :=
  (order a.1 b.1).then (order a.2 b.2)

theorem orderThen_eq_lt_iff [Ordered α] [Ordered β] {a b : α × β} :
    orderThen a b = .lt ↔ Precedes a.1 b.1 ∨ a.1 = b.1 ∧ Precedes a.2 b.2 := by
  rw [← Ordered.order_eq_iff (a := a.1)]
  unfold orderThen Precedes
  cases order a.1 b.1 <;> simp [Ordering.then]

instance [Ordered α] [Ordered β] : Ordered (α × β) where
  order := orderThen
  order_eq_iff {a b} := by
    rw [Prod.ext_iff, ← Ordered.order_eq_iff (a := a.1), ← Ordered.order_eq_iff (a := a.2)]
    unfold orderThen
    cases order a.1 b.1 <;> simp [Ordering.then]
  order_swap a b := by
    unfold orderThen
    rw [Ordered.order_swap a.1 b.1, Ordered.order_swap a.2 b.2]
    cases order a.1 b.1 <;> rfl
  order_trans {a b c} := by
    rw [orderThen_eq_lt_iff, orderThen_eq_lt_iff, orderThen_eq_lt_iff]
    rintro (h | ⟨h, h₂⟩) (h' | ⟨h', h₂'⟩)
    · exact Or.inl (h.trans h')
    · exact Or.inl (h' ▸ h)
    · exact Or.inl (h ▸ h')
    · exact Or.inr ⟨h.trans h', h₂.trans h₂'⟩

/-- Lists are compared by their first difference, and a list precedes its extensions. -/
def orderList [Ordered α] : List α → List α → Ordering
  | [], [] => .eq
  | [], _ :: _ => .lt
  | _ :: _, [] => .gt
  | a :: l, b :: r => (order a b).then (orderList l r)

theorem orderList_cons_eq_lt_iff [Ordered α] {a b : α} {l r : List α} :
    orderList (a :: l) (b :: r) = .lt ↔ Precedes a b ∨ a = b ∧ orderList l r = .lt := by
  rw [← Ordered.order_eq_iff (a := a)]
  unfold Precedes
  rw [orderList]
  cases order a b <;> simp [Ordering.then]

theorem orderList_trans [Ordered α] {l r s : List α} (hlr : orderList l r = .lt)
    (hrs : orderList r s = .lt) : orderList l s = .lt := by
  induction l generalizing r s with
  | nil =>
      cases s with
      | nil => cases r <;> simp [orderList] at hrs
      | cons c s => rfl
  | cons a l ih =>
      cases r with
      | nil => simp [orderList] at hlr
      | cons b r =>
          cases s with
          | nil => simp [orderList] at hrs
          | cons c s =>
              rw [orderList_cons_eq_lt_iff] at hlr hrs ⊢
              rcases hlr with h | ⟨rfl, h⟩ <;> rcases hrs with h' | ⟨rfl, h'⟩
              · exact Or.inl (h.trans h')
              · exact Or.inl h
              · exact Or.inl h'
              · exact Or.inr ⟨rfl, ih h h'⟩

instance [Ordered α] : Ordered (List α) where
  order := orderList
  order_eq_iff {l r} := by
    induction l generalizing r with
    | nil => cases r <;> simp [orderList]
    | cons a l ih =>
        cases r with
        | nil => simp [orderList]
        | cons b r =>
            rw [orderList, List.cons.injEq, ← ih, ← Ordered.order_eq_iff (a := a)]
            cases order a b <;> simp [Ordering.then]
  order_swap l r := by
    induction l generalizing r with
    | nil => cases r <;> rfl
    | cons a l ih =>
        cases r with
        | nil => rfl
        | cons b r =>
            rw [orderList, orderList, ih, Ordered.order_swap a b]
            cases order a b <;> rfl
  order_trans := orderList_trans

/-- The order of a type whose values are determined by a key. -/
@[reducible] def Ordered.byKey [Ordered β] (key : α → β)
    (key_injective : ∀ {a b : α}, key a = key b → a = b) : Ordered α where
  order a b := order (key a) (key b)
  order_eq_iff := Ordered.order_eq_iff.trans ⟨key_injective, congrArg key⟩
  order_swap _ _ := Ordered.order_swap _ _
  order_trans := Ordered.order_trans

theorem precedes_iff_lt {m n : Nat} : Precedes m n ↔ m < n :=
  Nat.compare_eq_lt

end FiniteState
