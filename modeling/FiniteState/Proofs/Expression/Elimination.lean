import FiniteState.Expression.Elimination
import FiniteState.Proofs.Expression.Meaning
import FiniteState.Proofs.Expression.Passing
/-!
The table of expressions while states are eliminated.  As long as two states are left, their entry
denotes the words that lead from the one to the other through the eliminated states.
-/

namespace FiniteState

universe u

variable {L : Type u} [Label L]

namespace EdgeTable

variable {table : EdgeTable L} {A : Automaton L} {p q r n : Nat}

section Shape

/-- The table has `n` rows of length `n`. -/
structure Square (table : EdgeTable L) (n : Nat) : Prop where
  size_eq : table.size = n
  row_size : ∀ p < n, (table.getD p #[]).size = n

omit [Label L] in
theorem getD_of_lt {α : Type u} {a : Array α} {i : Nat} (d : α) (h : i < a.size) :
    a.getD i d = a[i] := by
  rw [Array.getD_eq_getD_getElem?, Array.getElem?_eq_getElem h, Option.getD_some]

omit [Label L] in
theorem getD_of_le {α : Type u} {a : Array α} {i : Nat} (d : α) (h : a.size ≤ i) :
    a.getD i d = d := by
  rw [Array.getD_eq_getD_getElem?, Array.getElem?_eq_none h, Option.getD_none]

theorem bypass_eq (loop : Expression L) (out row : Array (Expression L)) :
    bypass q loop out row =
      if row.getD q .zero = .zero then row
      else row.mapIdx fun r e =>
        if r = q then .zero
        else e.add (((row.getD q .zero).mul loop).mul (out.getD r .zero)) :=
  rfl

theorem size_bypass {loop : Expression L} {out row : Array (Expression L)} :
    (bypass q loop out row).size = row.size := by
  rw [bypass_eq]
  split
  · rfl
  · rw [Array.size_mapIdx]

theorem row_eliminate (h : table.Square n) (hp : p < n) (hpq : p ≠ q) :
    (table.eliminate q).getD p #[] =
      bypass q ((table.getD q #[]).getD q .zero).star (table.getD q #[]) (table.getD p #[]) := by
  have hp' : p < table.size := by rwa [h.size_eq]
  rw [eliminate, getD_of_lt _ (by rwa [Array.size_mapIdx]), Array.getElem_mapIdx, if_neg hpq,
    getD_of_lt _ hp']

theorem row_eliminate_self (h : table.Square n) (hp : p < n) :
    (table.eliminate p).getD p #[] = (table.getD p #[]).map fun _ => .zero := by
  have hp' : p < table.size := by rwa [h.size_eq]
  rw [eliminate, getD_of_lt _ (by rwa [Array.size_mapIdx]), Array.getElem_mapIdx, if_pos rfl,
    getD_of_lt _ hp']

theorem Square.eliminate (h : table.Square n) (q : Nat) : (table.eliminate q).Square n := by
  constructor
  · rw [EdgeTable.eliminate, Array.size_mapIdx, h.size_eq]
  · intro p hp
    by_cases hpq : p = q
    · subst hpq
      rw [row_eliminate_self h hp, Array.size_map, h.row_size p hp]
    · rw [row_eliminate h hp hpq, size_bypass, h.row_size p hp]

omit [Label L] in
theorem Square.entry_eq_zero (h : table.Square n) (hpq : ¬ (p < n ∧ q < n)) :
    table.entry p q = .zero := by
  by_cases hp : p < n
  · have hq : (table.getD p #[]).size ≤ q := by
      rw [h.row_size p hp]
      exact Nat.le_of_not_lt fun hq => hpq ⟨hp, hq⟩
    rw [entry, getD_of_le _ hq]
  · have hp' : table.size ≤ p := by rwa [h.size_eq, ← Nat.not_lt]
    rw [entry, getD_of_le _ hp']
    rfl

end Shape

section Eliminate

theorem getD_bypass {loop : Expression L} {out row : Array (Expression L)} (hr : r < row.size)
    (hrq : r ≠ q) :
    (bypass q loop out row).getD r .zero =
      (row.getD r .zero).add (((row.getD q .zero).mul loop).mul (out.getD r .zero)) := by
  by_cases hzero : row.getD q .zero = .zero
  · rw [bypass_eq, if_pos hzero, hzero, Expression.zero_mul, Expression.zero_mul,
      Expression.add_zero]
  · rw [bypass_eq, if_neg hzero, getD_of_lt _ (by rwa [Array.size_mapIdx]), Array.getElem_mapIdx,
      if_neg hrq, getD_of_lt _ hr]

theorem getD_bypass_self {loop : Expression L} {out row : Array (Expression L)}
    (hq : q < row.size) : (bypass q loop out row).getD q .zero = .zero := by
  by_cases hzero : row.getD q .zero = .zero
  · rw [bypass_eq, if_pos hzero, hzero]
  · rw [bypass_eq, if_neg hzero, getD_of_lt _ (by rwa [Array.size_mapIdx]), Array.getElem_mapIdx,
      if_pos rfl]

theorem entry_eliminate (h : table.Square n) (hpq : p ≠ q) (hrq : r ≠ q) :
    (table.eliminate q).entry p r =
      (table.entry p r).add
        (((table.entry p q).mul (table.entry q q).star).mul (table.entry q r)) := by
  by_cases hp : p < n
  · by_cases hr : r < n
    · have hr' : r < (table.getD p #[]).size := by rwa [h.row_size p hp]
      rw [entry, row_eliminate h hp hpq, getD_bypass hr' hrq]
      rfl
    · rw [(h.eliminate q).entry_eq_zero fun hlt => hr hlt.2, h.entry_eq_zero fun hlt => hr hlt.2,
        h.entry_eq_zero (p := q) fun hlt => hr hlt.2, Expression.mul_zero, Expression.add_zero]
  · rw [(h.eliminate q).entry_eq_zero fun hlt => hp hlt.1, h.entry_eq_zero fun hlt => hp hlt.1,
      h.entry_eq_zero (q := q) fun hlt => hp hlt.1, Expression.zero_mul, Expression.zero_mul,
      Expression.add_zero]

theorem entry_eliminate_self (h : table.Square n) (hq : p = q ∨ r = q) :
    (table.eliminate q).entry p r = .zero := by
  by_cases hlt : p < n ∧ r < n
  · obtain ⟨hp, hr⟩ := hlt
    have hsize : r < (table.getD p #[]).size := by rwa [h.row_size p hp]
    by_cases hpq : p = q
    · subst hpq
      rw [entry, row_eliminate_self h hp, getD_of_lt _ (by rwa [Array.size_map]), Array.getElem_map]
    · obtain rfl := hq.resolve_left hpq
      rw [entry, row_eliminate h hp hpq, getD_bypass_self hsize]
  · exact (h.eliminate q).entry_eq_zero hlt

/-- What eliminating a state makes of the languages of the other entries. -/
theorem language_entry_eliminate (h : table.Square n) (hpq : p ≠ q) (hrq : r ≠ q) :
    ((table.eliminate q).entry p r).language =
      (table.entry p r).language +
        (table.entry p q).language * KStar.kstar (table.entry q q).language *
          (table.entry q r).language := by
  rw [entry_eliminate h hpq hrq, Expression.language_add, Expression.language_mul,
    Expression.language_mul, Expression.language_star]

/-- The entries between states that are left denote the words that lead through eliminated
states. -/
structure Represents (table : EdgeTable L) (A : Automaton L) (eliminated : Set Nat) : Prop where
  square : table.Square A.size
  language_entry : ∀ p < A.size, ∀ q < A.size, p ∉ eliminated → q ∉ eliminated →
    (table.entry p q).language = A.passing eliminated p q

theorem Represents.eliminate {eliminated : Set Nat} (h : table.Represents A eliminated)
    (hq : q < A.size) (hqe : q ∉ eliminated) :
    (table.eliminate q).Represents A (insert q eliminated) := by
  refine ⟨h.square.eliminate q, fun p hp r hr hpe hre => ?_⟩
  obtain ⟨hpq, hpe⟩ := not_or.mp (mt Set.mem_insert_iff.mpr hpe)
  obtain ⟨hrq, hre⟩ := not_or.mp (mt Set.mem_insert_iff.mpr hre)
  rw [language_entry_eliminate h.square hpq hrq, A.passing_insert,
    h.language_entry p hp r hr hpe hre, h.language_entry p hp q hq hpe hqe,
    h.language_entry q hq q hq hqe hqe, h.language_entry q hq r hr hqe hre]

theorem Represents.foldl_eliminate {eliminated : Set Nat} (h : table.Represents A eliminated)
    {states : List Nat} (hstates : ∀ q ∈ states, q < A.size ∧ q ∉ eliminated)
    (hnodup : states.Nodup) :
    (states.foldl EdgeTable.eliminate table).Represents A (eliminated ∪ { q | q ∈ states }) := by
  induction states generalizing table eliminated with
  | nil => simpa using h
  | cons q states ih =>
      obtain ⟨hq, hstates⟩ := List.forall_mem_cons.mp hstates
      obtain ⟨hnotMem, hnodup⟩ := List.nodup_cons.mp hnodup
      have hset : eliminated ∪ { r | r ∈ q :: states } =
          insert q eliminated ∪ { r | r ∈ states } := by
        ext r
        simp only [Set.mem_union, Set.mem_ofPred_eq, List.mem_cons, Set.mem_insert_iff]
        exact or_left_comm.trans or_assoc.symm
      rw [hset]
      refine ih (h.eliminate hq.1 hq.2) (fun r hr => ⟨(hstates r hr).1, fun hmem => ?_⟩) hnodup
      rcases Set.mem_insert_iff.mp hmem with rfl | hmem
      · exact hnotMem hr
      · exact (hstates r hr).2 hmem

end Eliminate

section Start

omit [Label L] in
theorem language_ofLabel (l : Option L) : (ofLabel l).language = {l.toList} := by
  cases l with
  | none => rfl
  | some l => rfl

/-- An expression with the labels of a list added to it. -/
def addLabels (e : Expression L) (labels : List (Option L)) : Expression L :=
  labels.foldl (fun e l => e.add (ofLabel l)) e

theorem mem_language_addLabels {e : Expression L} {labels : List (Option L)} {w : List L} :
    w ∈ (addLabels e labels).language ↔ w ∈ e.language ∨ ∃ l ∈ labels, w = l.toList := by
  induction labels generalizing e with
  | nil => simp [addLabels]
  | cons l labels ih =>
      rw [addLabels, List.foldl_cons, ← addLabels, ih, Expression.language_add, language_ofLabel,
        Language.mem_add, or_assoc, List.exists_mem_cons_iff]
      rfl

theorem getD_foldl_moves {row : Array (Expression L)} {moves : List (Move L)} (hr : r < row.size) :
    (moves.foldl (fun row m => row.modify m.state fun e => e.add (ofLabel m.label)) row).getD r
        .zero =
      addLabels (row.getD r .zero) ((moves.filter fun m => m.state == r).map Move.label) := by
  induction moves generalizing row with
  | nil => rfl
  | cons m rest ih =>
      have hsize : r < (row.modify m.state fun e => e.add (ofLabel m.label)).size := by
        rwa [Array.size_modify]
      rw [List.foldl_cons, ih hsize, getD_of_lt _ hsize, Array.getElem_modify, getD_of_lt _ hr]
      by_cases hm : m.state = r
      · rw [if_pos hm, List.filter_cons_of_pos (by simpa using hm)]
        rfl
      · rw [if_neg hm, List.filter_cons_of_neg (by simpa using hm)]

theorem size_foldl_moves {row : Array (Expression L)} {moves : List (Move L)} :
    (moves.foldl (fun row m => row.modify m.state fun e => e.add (ofLabel m.label)) row).size =
      row.size := by
  induction moves generalizing row with
  | nil => rfl
  | cons m rest ih => rw [List.foldl_cons, ih, Array.size_modify]

theorem getD_ofAutomaton (hp : p < A.size) : (ofAutomaton A).getD p #[] = row A p := by
  have hp' : p < (A.states.map (row A)).length := by simpa [Automaton.states] using hp
  rw [ofAutomaton, getD_of_lt _ (by rwa [List.size_toArray]), List.getElem_toArray,
    List.getElem_map]
  simp [Automaton.states]

theorem square_ofAutomaton (A : Automaton L) : (ofAutomaton A).Square A.size := by
  refine ⟨by simp [ofAutomaton, Automaton.states], fun p hp => ?_⟩
  rw [getD_ofAutomaton hp, row, size_foldl_moves, Array.size_replicate]

/-- What the moves from one state to another one read, in order. -/
def labelsBetween (A : Automaton L) (p q : Nat) : List (Option L) :=
  ((A.outgoing p).toList.filter fun m => m.state == q).map Move.label

theorem mem_labelsBetween {l : Option L} : l ∈ labelsBetween A p q ↔ A.Moves p l q := by
  simp only [labelsBetween, List.mem_map, List.mem_filter, beq_iff_eq]
  constructor
  · intro h
    obtain ⟨m, ⟨hm, rfl⟩, rfl⟩ := h
    exact OrderedSet.mem_toList.mp hm
  · exact fun h => ⟨⟨l, q⟩, ⟨OrderedSet.mem_toList.mpr h, rfl⟩, rfl⟩

theorem nodup_labelsBetween (A : Automaton L) (p q : Nat) : (labelsBetween A p q).Nodup := by
  refine List.Nodup.map_on ?_ (List.Nodup.filter _ (A.outgoing p).toList_nodup)
  intro m hm m' hm' heq
  simp only [List.mem_filter, beq_iff_eq] at hm hm'
  cases m
  cases m'
  simp_all

/-- In the beginning an entry is the sum of what single moves read. -/
theorem entry_ofAutomaton (A : Automaton L) (p q : Nat) :
    (ofAutomaton A).entry p q = addLabels .zero (labelsBetween A p q) := by
  by_cases hlt : p < A.size ∧ q < A.size
  · have hq : q < (Array.replicate A.size (Expression.zero (L := L))).size := by
      rw [Array.size_replicate]
      exact hlt.2
    rw [entry, getD_ofAutomaton hlt.1, row, getD_foldl_moves hq, getD_of_lt _ hq,
      Array.getElem_replicate]
    rfl
  · have hnone : labelsBetween A p q = [] := by
      rw [List.eq_nil_iff_forall_not_mem]
      intro l hl
      have hmove := mem_labelsBetween.mp hl
      exact hlt ⟨hmove.start_lt, hmove.target_lt⟩
    rw [(square_ofAutomaton A).entry_eq_zero hlt, hnone]
    rfl

theorem entry_ofAutomaton_of_not_moves (h : ∀ k, ¬ A.Moves p k q) :
    (ofAutomaton A).entry p q = .zero := by
  have hnone : labelsBetween A p q = [] :=
    List.eq_nil_iff_forall_not_mem.mpr fun k hk => h k (mem_labelsBetween.mp hk)
  rw [entry_ofAutomaton, hnone]
  rfl

theorem entry_ofAutomaton_of_moves_iff {l : Option L} (h : ∀ k, A.Moves p k q ↔ k = l) :
    (ofAutomaton A).entry p q = ofLabel l := by
  have hperm : (labelsBetween A p q).Perm [l] :=
    (List.perm_ext_iff_of_nodup (nodup_labelsBetween A p q) (List.nodup_singleton l)).mpr
      fun k => by rw [mem_labelsBetween, h, List.mem_singleton]
  rw [entry_ofAutomaton, List.perm_singleton.mp hperm]
  exact Expression.zero_add _

/-- In the beginning the entries denote what single moves read. -/
theorem represents_ofAutomaton (A : Automaton L) : (ofAutomaton A).Represents A ∅ := by
  refine ⟨square_ofAutomaton A, fun p _ q _ _ _ => ?_⟩
  ext w
  rw [entry_ofAutomaton, mem_language_addLabels, Automaton.mem_passing_empty]
  simp only [mem_labelsBetween]
  exact or_iff_right (Language.notMem_zero w)

end Start

end EdgeTable

end FiniteState
