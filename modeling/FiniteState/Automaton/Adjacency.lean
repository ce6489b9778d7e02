import FiniteState.Label
import FiniteState.OrderedSet
/-!
What is recorded at one end of the transitions of a state: for everything that they read, the set of
the states at their other ends.  The entries stand in increasing order of what is read.  Adding a
transition makes an entry where there is none, so no entry is ever left without states.
-/

namespace FiniteState

universe u

abbrev StateSet := OrderedSet Nat

/-- A transition seen from one of its ends: what it reads, `none` for nothing, and the state at its
other end. -/
structure Move (L : Type u) where
  label : Option L
  state : Nat
deriving DecidableEq, Repr

/-- Moves are ordered by label and then by state, those that read nothing come first. -/
instance {L : Type u} [Ordered L] : Ordered (Move L) :=
  Ordered.byKey (fun m => (m.label, m.state)) fun {a b} h => by
    cases a
    cases b
    simpa using h

theorem Move.precedes_iff {L : Type u} [Ordered L] {m n : Move L} :
    Precedes m n ↔ Precedes m.label n.label ∨ m.label = n.label ∧ Precedes m.state n.state :=
  orderThen_eq_lt_iff

/-- The states at the other ends of the transitions of one state, by what the transitions read. -/
structure Adjacency (L : Type u) [Label L] where
  entries : List (Option L × StateSet)
  increasing : entries.Pairwise fun e e' => Precedes e.1 e'.1

namespace Adjacency

variable {L : Type u} [Label L]

section Entries

/-- The states of the first entry for `l`. -/
def statesIn (l : Option L) : List (Option L × StateSet) → StateSet
  | [] => ∅
  | (label, states) :: rest => if label = l then states else statesIn l rest

/-- Put `q` into the entry for `l`, which is made in its place if it is missing. -/
def addTo (l : Option L) (q : Nat) : List (Option L × StateSet) → List (Option L × StateSet)
  | [] => [(l, (∅ : StateSet).insert q)]
  | (label, states) :: rest =>
      match order l label with
      | .lt => (l, (∅ : StateSet).insert q) :: (label, states) :: rest
      | .eq => (label, states.insert q) :: rest
      | .gt => (label, states) :: addTo l q rest

variable {entries : List (Option L × StateSet)} {l k : Option L} {q r : Nat}

theorem statesIn_of_precedes (h : ∀ e ∈ entries, Precedes l e.1) : statesIn l entries = ∅ := by
  induction entries with
  | nil => rfl
  | cons e rest ih =>
      rw [statesIn, if_neg (h e List.mem_cons_self).ne.symm]
      exact ih fun e he => h e (List.mem_cons_of_mem _ he)

theorem statesIn_of_mem (h : entries.Pairwise fun e e' => Precedes e.1 e'.1)
    {e : Option L × StateSet} (he : e ∈ entries) : statesIn e.1 entries = e.2 := by
  induction entries with
  | nil => exact absurd he List.not_mem_nil
  | cons e' rest ih =>
      obtain ⟨hhead, hrest⟩ := List.pairwise_cons.mp h
      rw [statesIn]
      rcases List.mem_cons.mp he with rfl | he
      · exact if_pos rfl
      · rw [if_neg (hhead e he).ne]
        exact ih hrest he

theorem exists_of_mem_statesIn (hq : q ∈ statesIn l entries) : ∃ e ∈ entries, e.1 = l := by
  induction entries with
  | nil => exact absurd hq (OrderedSet.not_mem_empty q)
  | cons e rest ih =>
      rw [statesIn] at hq
      split at hq
      · rename_i hl
        exact ⟨e, List.mem_cons_self, hl⟩
      · obtain ⟨e', he', hl⟩ := ih hq
        exact ⟨e', List.mem_cons_of_mem _ he', hl⟩

theorem mem_statesIn_addTo (h : entries.Pairwise fun e e' => Precedes e.1 e'.1) :
    r ∈ statesIn k (addTo l q entries) ↔ (k = l ∧ r = q) ∨ r ∈ statesIn k entries := by
  induction entries with
  | nil =>
      rw [addTo, statesIn]
      by_cases hl : l = k
      · simp [hl, statesIn]
      · simp [hl, Ne.symm hl, statesIn]
  | cons e rest ih =>
      obtain ⟨hhead, hrest⟩ := List.pairwise_cons.mp h
      rw [addTo]
      split
      · rename_i hlt
        -- The new entry comes first, and there was none for the same label.
        have hnone : statesIn l (e :: rest) = ∅ := statesIn_of_precedes fun e' he' => by
          rcases List.mem_cons.mp he' with rfl | he'
          · exact hlt
          · exact Precedes.trans hlt (hhead e' he')
        rw [statesIn]
        split
        · rename_i hl
          subst hl
          simp [hnone]
        · rename_i hl
          simp [Ne.symm hl]
      · rename_i heq
        have heq := Ordered.order_eq_iff.mp heq
        rw [statesIn, statesIn]
        split
        · rename_i hl
          simp [heq, hl]
        · rename_i hl
          simp [heq, Ne.symm hl]
      · rename_i hgt
        rw [statesIn, statesIn]
        split
        · rename_i hl
          have hne : k ≠ l := hl ▸ (order_eq_gt_iff.mp hgt).ne
          simp [hne]
        · exact ih hrest

/-- The entry that is put in has its label, the others keep theirs. -/
theorem label_eq_of_mem_addTo {e : Option L × StateSet} (he : e ∈ addTo l q entries) :
    e.1 = l ∨ ∃ e' ∈ entries, e.1 = e'.1 := by
  induction entries with
  | nil => exact Or.inl (congrArg Prod.fst (List.mem_singleton.mp he))
  | cons e' rest ih =>
      rw [addTo] at he
      split at he
      · rcases List.mem_cons.mp he with rfl | he
        · exact Or.inl rfl
        · exact Or.inr ⟨e, he, rfl⟩
      · rcases List.mem_cons.mp he with rfl | he
        · exact Or.inr ⟨e', List.mem_cons_self, rfl⟩
        · exact Or.inr ⟨e, List.mem_cons_of_mem _ he, rfl⟩
      · rcases List.mem_cons.mp he with rfl | he
        · exact Or.inr ⟨_, List.mem_cons_self, rfl⟩
        · exact (ih he).imp_right fun ⟨e', he', heq⟩ => ⟨e', List.mem_cons_of_mem _ he', heq⟩

theorem addTo_increasing (l : Option L) (q : Nat)
    (h : entries.Pairwise fun e e' => Precedes e.1 e'.1) :
    (addTo l q entries).Pairwise fun e e' => Precedes e.1 e'.1 := by
  induction entries with
  | nil => simp [addTo]
  | cons e rest ih =>
      obtain ⟨hhead, hrest⟩ := List.pairwise_cons.mp h
      rw [addTo]
      split
      · rename_i hlt
        refine List.pairwise_cons.mpr ⟨fun e' he' => ?_, h⟩
        rcases List.mem_cons.mp he' with rfl | he'
        · exact hlt
        · exact Precedes.trans hlt (hhead e' he')
      · exact List.pairwise_cons.mpr ⟨hhead, hrest⟩
      · rename_i hgt
        refine List.pairwise_cons.mpr ⟨fun e' he' => ?_, ih hrest⟩
        rcases label_eq_of_mem_addTo he' with heq | ⟨e'', he'', heq⟩
        · exact heq ▸ order_eq_gt_iff.mp hgt
        · exact heq ▸ hhead e'' he''

/-- Entries have states if those that were there before had some. -/
theorem isEmpty_eq_false_of_mem_addTo (h : ∀ e ∈ entries, e.2.isEmpty = false)
    {e : Option L × StateSet} (he : e ∈ addTo l q entries) : e.2.isEmpty = false := by
  have hinsert (states : StateSet) : (states.insert q).isEmpty = false := by
    rw [Bool.eq_false_iff]
    exact fun hempty => OrderedSet.isEmpty_iff.mp hempty q (OrderedSet.mem_insert.mpr (Or.inl rfl))
  induction entries with
  | nil =>
      rw [List.mem_singleton.mp he]
      exact hinsert ∅
  | cons e' rest ih =>
      have hrest : ∀ e ∈ rest, e.2.isEmpty = false := fun e he => h e (List.mem_cons_of_mem _ he)
      rw [addTo] at he
      split at he
      · rcases List.mem_cons.mp he with rfl | he
        · exact hinsert ∅
        · exact h e he
      · rcases List.mem_cons.mp he with rfl | he
        · exact hinsert _
        · exact hrest e he
      · rcases List.mem_cons.mp he with rfl | he
        · exact h _ List.mem_cons_self
        · exact ih hrest he

end Entries

def empty : Adjacency L :=
  ⟨[], List.Pairwise.nil⟩

instance : EmptyCollection (Adjacency L) := ⟨empty⟩

instance : Inhabited (Adjacency L) := ⟨empty⟩

def statesAt (a : Adjacency L) (l : Option L) : StateSet :=
  statesIn l a.entries

def add (a : Adjacency L) (l : Option L) (q : Nat) : Adjacency L :=
  ⟨addTo l q a.entries, addTo_increasing l q a.increasing⟩

def labels (a : Adjacency L) : OrderedSet (Option L) :=
  ⟨a.entries.map Prod.fst, List.pairwise_map.mpr a.increasing⟩

def Filled (a : Adjacency L) : Prop :=
  ∀ e ∈ a.entries, e.2.isEmpty = false

theorem moves_increasing (a : Adjacency L) :
    (a.entries.flatMap fun e => e.2.toList.map (Move.mk e.1)).Pairwise Precedes := by
  rw [List.pairwise_flatMap]
  constructor
  · intro e _
    rw [List.pairwise_map]
    refine e.2.increasing.imp fun {p q} h => ?_
    exact Move.precedes_iff.mpr (Or.inr ⟨rfl, h⟩)
  · refine a.increasing.imp fun {e e'} h m hm n hn => ?_
    obtain ⟨p, -, rfl⟩ := List.mem_map.mp hm
    obtain ⟨q, -, rfl⟩ := List.mem_map.mp hn
    exact Move.precedes_iff.mpr (Or.inl h)

def moves (a : Adjacency L) : OrderedSet (Move L) :=
  ⟨a.entries.flatMap fun e => e.2.toList.map (Move.mk e.1), a.moves_increasing⟩

variable {a b : Adjacency L} {l k : Option L} {q r : Nat}

@[simp] theorem not_mem_statesAt_empty : q ∉ (∅ : Adjacency L).statesAt l :=
  OrderedSet.not_mem_empty q

theorem filled_empty : (∅ : Adjacency L).Filled :=
  fun _ he => absurd he List.not_mem_nil

theorem statesAt_of_mem {e : Option L × StateSet} (he : e ∈ a.entries) : a.statesAt e.1 = e.2 :=
  statesIn_of_mem a.increasing he

theorem mem_statesAt : q ∈ a.statesAt l ↔ ∃ e ∈ a.entries, e.1 = l ∧ q ∈ e.2 := by
  constructor
  · intro hq
    obtain ⟨e, he, rfl⟩ := exists_of_mem_statesIn hq
    exact ⟨e, he, rfl, statesAt_of_mem he ▸ hq⟩
  · rintro ⟨e, he, rfl, hq⟩
    rwa [statesAt_of_mem he]

@[simp] theorem mem_statesAt_add :
    r ∈ (a.add l q).statesAt k ↔ (k = l ∧ r = q) ∨ r ∈ a.statesAt k :=
  mem_statesIn_addTo a.increasing

theorem Filled.add (h : a.Filled) (l : Option L) (q : Nat) : (a.add l q).Filled :=
  fun _ he => isEmpty_eq_false_of_mem_addTo h he

@[simp] theorem mem_moves {m : Move L} : m ∈ a.moves ↔ m.state ∈ a.statesAt m.label := by
  rw [mem_statesAt]
  change m ∈ a.entries.flatMap (fun e => e.2.toList.map (Move.mk e.1)) ↔ _
  simp only [List.mem_flatMap, List.mem_map]
  constructor
  · rintro ⟨e, he, q, hq, rfl⟩
    exact ⟨e, he, rfl, hq⟩
  · rintro ⟨e, he, hl, hq⟩
    exact ⟨e, he, m.state, hq, by rw [hl]⟩

theorem size_moves_add (hnew : q ∉ a.statesAt l) : (a.add l q).moves.size = a.moves.size + 1 := by
  have hmoves : (a.add l q).moves = a.moves.insert ⟨l, q⟩ := by
    refine OrderedSet.eq_of_mem_iff fun m => ?_
    rw [mem_moves, mem_statesAt_add, OrderedSet.mem_insert, mem_moves]
    cases m
    simp
  rw [hmoves, OrderedSet.size_insert_of_not_mem fun h => hnew (mem_moves.mp h)]

theorem Filled.exists_mem (h : a.Filled) {e : Option L × StateSet} (he : e ∈ a.entries) :
    ∃ q, q ∈ e.2 := by
  have hne := h e he
  rw [Bool.eq_false_iff, ne_eq, OrderedSet.isEmpty_iff] at hne
  exact Classical.byContradiction fun hnone => hne fun q hq => hnone ⟨q, hq⟩

/-- If every entry has states, there are entries exactly for what is read. -/
theorem Filled.mem_labels (h : a.Filled) : l ∈ a.labels ↔ ∃ q, q ∈ a.statesAt l := by
  simp only [mem_statesAt]
  change l ∈ a.entries.map Prod.fst ↔ _
  rw [List.mem_map]
  constructor
  · rintro ⟨e, he, rfl⟩
    obtain ⟨q, hq⟩ := h.exists_mem he
    exact ⟨q, e, he, rfl, hq⟩
  · rintro ⟨q, e, he, rfl, -⟩
    exact ⟨e, he, rfl⟩

/-- If every entry has states, the entries are determined by what is read and by the states. -/
theorem Filled.mem_entries (h : a.Filled) {e : Option L × StateSet} :
    e ∈ a.entries ↔ a.statesAt e.1 = e.2 ∧ ∃ q, q ∈ a.statesAt e.1 := by
  constructor
  · intro he
    refine ⟨statesAt_of_mem he, ?_⟩
    rw [statesAt_of_mem he]
    exact h.exists_mem he
  · rintro ⟨heq, q, hq⟩
    obtain ⟨e', he', hl, -⟩ := mem_statesAt.mp hq
    have heq' := statesAt_of_mem he'
    rw [hl, heq] at heq'
    rwa [show e = e' from Prod.ext hl.symm heq']

/-- Without empty entries there is one way only to record transitions. -/
theorem Filled.eq_of_mem_iff (ha : a.Filled) (hb : b.Filled)
    (h : ∀ l q, q ∈ a.statesAt l ↔ q ∈ b.statesAt l) : a = b := by
  have hincreasing (c : Adjacency L) : c.entries.Pairwise Precedes :=
    c.increasing.imp fun hlt => orderThen_eq_lt_iff.mpr (Or.inl hlt)
  have hstates (l : Option L) : a.statesAt l = b.statesAt l := OrderedSet.eq_of_mem_iff (h l)
  have hentries : a.entries = b.entries := by
    refine OrderedSet.eq_of_increasing_of_mem_iff (hincreasing a) (hincreasing b) fun e => ?_
    rw [ha.mem_entries, hb.mem_entries, hstates]
  cases a
  cases b
  cases hentries
  rfl

theorem Filled.add_of_mem (h : a.Filled) (hmem : q ∈ a.statesAt l) : a.add l q = a := by
  refine (h.add l q).eq_of_mem_iff h fun k r => ?_
  rw [mem_statesAt_add]
  refine or_iff_right_of_imp ?_
  rintro ⟨rfl, rfl⟩
  exact hmem

end Adjacency

end FiniteState
