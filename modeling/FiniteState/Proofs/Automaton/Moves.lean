import FiniteState.Automaton.Basic
import Mathlib.Data.List.Perm.Subperm
import Mathlib.Tactic.ByContra
/-!
An automaton as a relation of moves.  A move leads between two states of the automaton and is
recorded at both of them; the listings of transitions, successors, predecessors and labels all
speak of the same moves.  An automaton is determined by its flags, its moves and its names.
-/

namespace FiniteState

universe u

variable {L : Type u} [Label L]

namespace Automaton

variable {A B : Automaton L} {p q : Nat} {l : Option L}

/-- Some transition leads from `p` to `q` and reads `l`. -/
def Moves (A : Automaton L) (p : Nat) (l : Option L) (q : Nat) : Prop :=
  ⟨l, q⟩ ∈ A.outgoing p

theorem moves_iff_mem_statesAt : A.Moves p l q ↔ q ∈ (A.arena.outgoingAt p).statesAt l :=
  Adjacency.mem_moves

/-- Moves are recorded at their targets as well. -/
theorem moves_iff_mem_incomingAt : A.Moves p l q ↔ p ∈ (A.arena.incomingAt q).statesAt l :=
  moves_iff_mem_statesAt.trans (A.wellFormed.mirrored p l q)

theorem moves_iff_mem_incoming : A.Moves p l q ↔ ⟨l, p⟩ ∈ A.incoming q := by
  rw [moves_iff_mem_incomingAt, incoming, Adjacency.mem_moves]

theorem Moves.start_lt (h : A.Moves p l q) : p < A.size := by
  have hlt := Arena.lt_size_of_mem_statesAt (moves_iff_mem_statesAt.mp h)
  rwa [A.wellFormed.outgoing_size] at hlt

theorem Moves.target_lt (h : A.Moves p l q) : q < A.size := by
  have hlt := Arena.lt_size_of_mem_statesAt (moves_iff_mem_incomingAt.mp h)
  rwa [A.wellFormed.incoming_size] at hlt

theorem lt_size_of_isInitial (h : A.isInitial p = true) : p < A.size := by
  by_contra hp
  rw [isInitial, Array.getElem?_eq_none (Nat.le_of_not_lt hp)] at h
  simp at h

theorem lt_size_of_isTerminal (h : A.isTerminal p = true) : p < A.size := by
  by_contra hp
  rw [isTerminal, Array.getElem?_eq_none (Nat.le_of_not_lt hp)] at h
  simp at h

@[simp] theorem mem_states : p ∈ A.states ↔ p < A.size :=
  List.mem_range

@[simp] theorem mem_initials : p ∈ A.initials ↔ A.isInitial p = true := by
  rw [initials, OrderedSet.mem_filter, OrderedSet.mem_range]
  exact and_iff_right_of_imp lt_size_of_isInitial

@[simp] theorem mem_terminals : p ∈ A.terminals ↔ A.isTerminal p = true := by
  rw [terminals, OrderedSet.mem_filter, OrderedSet.mem_range]
  exact and_iff_right_of_imp lt_size_of_isTerminal

@[simp] theorem mem_successors : q ∈ A.successors p l ↔ A.Moves p l q :=
  moves_iff_mem_statesAt.symm

@[simp] theorem mem_predecessors : p ∈ A.predecessors q l ↔ A.Moves p l q :=
  moves_iff_mem_incomingAt.symm

theorem length_successors_le : (A.successors p l).length ≤ A.size := by
  have hnodup : (A.successors p l).Nodup := OrderedSet.toList_nodup _
  have hsub : A.successors p l ⊆ A.states :=
    fun _ hq => mem_states.mpr (mem_successors.mp hq).target_lt
  have hle := (List.subperm_of_subset hnodup hsub).length_le
  rwa [states, List.length_range] at hle

theorem successors_eq_singleton_iff : A.successors p l = [q] ↔ ∀ r, A.Moves p l r ↔ r = q := by
  simp only [moves_iff_mem_statesAt]
  exact OrderedSet.toList_eq_singleton_iff

theorem mem_map_outgoing : q ∈ (A.outgoing p).toList.map Move.state ↔ ∃ l, A.Moves p l q := by
  rw [List.mem_map]
  exact ⟨fun ⟨m, hm, hq⟩ => ⟨m.label, hq ▸ hm⟩, fun ⟨l, h⟩ => ⟨⟨l, q⟩, h, rfl⟩⟩

theorem mem_map_incoming : p ∈ (A.incoming q).toList.map Move.state ↔ ∃ l, A.Moves p l q := by
  rw [List.mem_map]
  constructor
  · exact fun ⟨m, hm, hp⟩ => ⟨m.label, moves_iff_mem_incoming.mpr (hp ▸ hm)⟩
  · exact fun ⟨l, h⟩ => ⟨⟨l, p⟩, moves_iff_mem_incoming.mp h, rfl⟩

theorem mem_transitions {t : Transition L} :
    t ∈ A.transitions ↔ A.Moves t.start t.label t.target := by
  simp only [transitions, transitionsFrom, List.mem_flatMap, mem_states, List.mem_map]
  constructor
  · intro h
    rcases h with ⟨p, -, m, hm, rfl⟩
    exact hm
  · intro h
    exact ⟨t.start, h.start_lt, ⟨t.label, t.target⟩, h, rfl⟩

theorem arena_outgoing_toList : A.arena.outgoing.toList = A.states.map A.arena.outgoingAt := by
  have hsize : A.arena.outgoing.size = A.size := A.wellFormed.outgoing_size
  refine List.ext_getElem (by simp [states, hsize]) fun p hp _ => ?_
  rw [Array.length_toList] at hp
  simp [states, Arena.outgoingAt, Arena.adjacencyAt, hp]

theorem mem_arena_outgoing {b : Adjacency L} :
    b ∈ A.arena.outgoing.toList ↔ ∃ p < A.size, A.arena.outgoingAt p = b := by
  simp only [arena_outgoing_toList, List.mem_map, mem_states]

theorem length_transitions : A.transitions.length = A.transitionCount := by
  have hcount (ps : List Nat) : (ps.flatMap A.transitionsFrom).length =
      Arena.countMoves (ps.map A.arena.outgoingAt) := by
    induction ps with
    | nil => rfl
    | cons p rest ih =>
        rw [List.flatMap_cons, List.length_append, ih, transitionsFrom, List.length_map]
        rfl
  rw [transitions, hcount, transitionCount, A.wellFormed.counted, arena_outgoing_toList]

/-- As no entry is empty, the entries show what is read. -/
theorem mem_labelsFrom : l ∈ A.labelsFrom p ↔ ∃ q, A.Moves p l q := by
  rw [labelsFrom, (A.wellFormed.outgoing_filled p).mem_labels]
  simp only [moves_iff_mem_statesAt]

@[simp] theorem mem_alphabet {a : L} : a ∈ A.alphabet ↔ ∃ p q, A.Moves p (some a) q := by
  rw [alphabet, OrderedSet.mem_ofList, List.mem_flatMap]
  simp only [mem_arena_outgoing, List.mem_filterMap, id_eq, exists_eq_right]
  constructor
  · rintro ⟨_, ⟨p, -, rfl⟩, ha⟩
    exact ⟨p, mem_labelsFrom.mp ha⟩
  · rintro ⟨p, q, hmove⟩
    exact ⟨_, ⟨p, hmove.start_lt, rfl⟩, mem_labelsFrom.mpr ⟨q, hmove⟩⟩

theorem isEpsilonFree_iff : A.isEpsilonFree = true ↔ ∀ p q, ¬ A.Moves p none q := by
  rw [isEpsilonFree, List.all_eq_true]
  simp only [mem_arena_outgoing, Bool.not_eq_true', ← Bool.not_eq_true, OrderedSet.contains_iff]
  constructor
  · intro h p q hmove
    exact h _ ⟨p, hmove.start_lt, rfl⟩ (mem_labelsFrom.mpr ⟨q, hmove⟩)
  · rintro h _ ⟨p, -, rfl⟩ hsilent
    obtain ⟨q, hmove⟩ := mem_labelsFrom.mp hsilent
    exact h p q hmove

theorem hasTransition_iff {t : Transition L} :
    A.hasTransition t = true ↔ A.Moves t.start t.label t.target :=
  OrderedSet.contains_iff.trans moves_iff_mem_statesAt.symm

theorem eq_of_moves_iff (hsize : A.size = B.size) (hinitial : ∀ p, A.isInitial p = B.isInitial p)
    (hterminal : ∀ p, A.isTerminal p = B.isTerminal p)
    (hmoves : ∀ p l q, A.Moves p l q ↔ B.Moves p l q) (hnames : A.names = B.names) : A = B := by
  obtain ⟨⟨flags, outgoing, incoming, names, count⟩, hA⟩ := A
  obtain ⟨⟨flags', outgoing', incoming', names', count'⟩, hB⟩ := B
  have hflags : flags = flags' := by
    refine Array.ext hsize fun p hp hp' => ?_
    have hi := hinitial p
    have ht := hterminal p
    simp only [isInitial, isTerminal, Array.getElem?_eq_getElem hp, Array.getElem?_eq_getElem hp',
      Option.any_some] at hi ht
    generalize flags[p] = f at *
    generalize flags'[p] = g at *
    cases f
    cases g
    cases hi
    cases ht
    rfl
  subst hflags
  have hout : outgoing = outgoing' := by
    refine Arena.eq_of_adjacencyAt_eq (hA.outgoing_size.trans hB.outgoing_size.symm) fun p => ?_
    refine (hA.outgoing_filled p).eq_of_mem_iff (hB.outgoing_filled p) fun l q => ?_
    exact moves_iff_mem_statesAt.symm.trans ((hmoves p l q).trans moves_iff_mem_statesAt)
  have hin : incoming = incoming' := by
    refine Arena.eq_of_adjacencyAt_eq (hA.incoming_size.trans hB.incoming_size.symm) fun q => ?_
    refine (hA.incoming_filled q).eq_of_mem_iff (hB.incoming_filled q) fun l p => ?_
    exact moves_iff_mem_incomingAt.symm.trans ((hmoves p l q).trans moves_iff_mem_incomingAt)
  subst hout
  subst hin
  obtain rfl : names = names' := hnames
  obtain rfl : count = count' := hA.counted.trans hB.counted.symm
  rfl

end Automaton

end FiniteState
