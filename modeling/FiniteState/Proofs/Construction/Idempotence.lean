import FiniteState.Proofs.Construction.Reduction
import FiniteState.Proofs.Construction.SilentFree
import FiniteState.Proofs.Construction.Subsets
import FiniteState.Proofs.Construction.Trimmed
/-!
Constructions that change nothing when they are repeated.  Each of them leads to automata of a kind
that it leaves as they are: automata without silent moves, trim ones, and ones without bisimilar
states.  Determinization leaves a deterministic automaton as it is if its states are numbered as a
breadth-first traversal finds them.  The subset construction meets sets of one state only then, in
the order of these states, and it numbers the states of its result in this way.
-/

namespace FiniteState

universe u v

def OrderedSet.singleton {α : Type v} [Ordered α] (a : α) : OrderedSet α :=
  ⟨[a], List.pairwise_singleton _ _⟩

@[simp] theorem OrderedSet.mem_singleton {α : Type v} [Ordered α] {a b : α} :
    b ∈ OrderedSet.singleton a ↔ b = a :=
  List.mem_singleton

theorem OrderedSet.singleton_inj {α : Type v} [Ordered α] {a b : α} :
    OrderedSet.singleton a = OrderedSet.singleton b ↔ a = b := by
  constructor
  · intro h
    rw [← mem_singleton, ← h, mem_singleton]
  · exact congrArg OrderedSet.singleton

variable {L : Type u} [Label L]

namespace Automaton

variable {A : Automaton L} {S : StateSet} {p q i x y : Nat} {l : L} {label : Option L}

/-- A breadth-first traversal that follows the moves in their order finds the states in their
order. -/
def NumberedBreadthFirst (A : Automaton L) : Prop :=
  Traversal.BreadthFirst (fun p => (A.outgoing p).toList.map Move.state) A.initials.toList A.states

/-- The moves between sets of states are listed in the order of their letters. -/
theorem pairwise_moves_subsets (S : StateSet) :
    (A.subsets.moves S).Pairwise fun m m' => Precedes m.1 m'.1 := by
  have hlabel {l : L} {m : Option L × StateSet}
      (h : (if (A.advance S l).isEmpty then none else some (some l, A.advance S l)) = some m) :
      m.1 = some l := by
    split at h
    · cases h
    · cases h
      rfl
  rw [subsets, List.pairwise_filterMap]
  refine A.alphabet.increasing.imp fun {l l'} hl m hm m' hm' => ?_
  rw [hlabel hm, hlabel hm']
  exact hl

section Singletons

/-- No two moves out of a state of a deterministic automaton read the same. -/
theorem Deterministic.pairwise_outgoing (h : A.Deterministic) (p : Nat) :
    (A.outgoing p).toList.Pairwise fun m m' => Precedes m.label m'.label := by
  refine (A.outgoing p).increasing.imp_of_mem fun {m m'} hm hm' hmm' => ?_
  rcases Move.precedes_iff.mp hmm' with hlabel | ⟨hlabel, hstate⟩
  · exact hlabel
  · refine absurd (h.functional p m.label m.state m'.state hm ?_) hstate.ne
    rw [hlabel]
    exact hm'

theorem Deterministic.start_eq (h : A.Deterministic) (hi : A.isInitial i = true) :
    A.start = .singleton i := by
  refine OrderedSet.eq_of_mem_iff fun p => ?_
  rw [start, mem_closure, OrderedSet.mem_singleton]
  constructor
  · rintro ⟨j, hj, -, hrun⟩
    rw [← eq_of_silent_run h.isEpsilonFree hrun]
    exact (h.isInitial_iff hi).mp (mem_initials.mp hj)
  · rintro rfl
    exact ⟨p, mem_initials.mpr hi, lt_size_of_isInitial hi, Run.done p⟩

theorem Deterministic.advance_singleton (h : A.Deterministic) (hmove : A.Moves p (some l) q) :
    A.advance (.singleton p) l = .singleton q := by
  refine OrderedSet.eq_of_mem_iff fun r => ?_
  simp only [mem_advance, OrderedSet.mem_singleton, exists_eq_left]
  constructor
  · rintro ⟨q', hmove', hrun⟩
    rw [← eq_of_silent_run h.isEpsilonFree hrun]
    exact h.functional p (some l) q' q hmove' hmove
  · rintro rfl
    exact ⟨r, hmove, Run.done r⟩

theorem terminal_singleton : A.subsets.terminal (.singleton p) = A.isTerminal p := by
  rw [Bool.eq_iff_iff]
  apply meetsTerminal_iff.trans
  simp

/-- The moves out of the set of one state are those out of the state. -/
theorem Deterministic.moves_subsets_singleton (h : A.Deterministic) (p : Nat) :
    A.subsets.moves (.singleton p) =
      (A.outgoing p).toList.map fun m => (m.label, .singleton m.state) := by
  -- Both lists are in the order of what is read, so it is enough that they have the same members.
  refine OrderedSet.eq_of_increasing_of_mem_iff ?_ ?_ fun m => ?_
  · exact (A.pairwise_moves_subsets _).imp fun hm => orderThen_eq_lt_iff.mpr (Or.inl hm)
  · rw [List.pairwise_map]
    exact (h.pairwise_outgoing p).imp fun hm => orderThen_eq_lt_iff.mpr (Or.inl hm)
  · obtain ⟨label, T⟩ := m
    rw [mem_moves_subsets, List.mem_map]
    constructor
    · rintro ⟨l, rfl, rfl, r, hr⟩
      obtain ⟨p', hp', q, hmove, -⟩ := mem_advance.mp hr
      rw [OrderedSet.mem_singleton.mp hp'] at hmove
      exact ⟨⟨some l, q⟩, hmove, by rw [h.advance_singleton hmove]⟩
    · rintro ⟨⟨label, q⟩, hmove, heq⟩
      cases heq
      cases label with
      | none => exact absurd hmove (h.not_silent p q)
      | some l => exact ⟨l, rfl, h.advance_singleton hmove, q, OrderedSet.mem_singleton.mpr rfl⟩

theorem Deterministic.moves_singleton_iff (h : A.Deterministic) :
    A.subsets.Moves (.singleton p) label (.singleton q) ↔ A.Moves p label q := by
  rw [Graph.Moves, h.moves_subsets_singleton, List.mem_map]
  constructor
  · rintro ⟨m, hm, heq⟩
    obtain ⟨rfl, hstate⟩ := Prod.mk.inj heq
    rw [← OrderedSet.singleton_inj.mp hstate]
    exact hm
  · exact fun hmove => ⟨⟨label, q⟩, hmove, rfl⟩

/-- The subset construction meets the sets of one state in the order of the states. -/
theorem NumberedBreadthFirst.nodes_subsets (hnumbered : A.NumberedBreadthFirst)
    (h : A.Deterministic) (hi : A.isInitial i = true) :
    A.subsets.nodes = A.states.map .singleton := by
  have hstarts : A.initials.toList.map .singleton = [A.start] := by
    rw [h.start_eq hi, h.toList_initials hi, List.map_singleton]
  have hsets : Traversal.BreadthFirst (fun S => (A.subsets.moves S).map Prod.snd)
      (A.initials.toList.map .singleton) (A.states.map .singleton) :=
    hnumbered.map (fun p _ q _ => OrderedSet.singleton_inj.mp) fun p _ => by
      rw [h.moves_subsets_singleton, List.map_map, List.map_map]
      rfl
  rw [hstarts] at hsets
  exact A.bounded_subsets.breadthFirst.eq_of_next_eq hsets fun _ _ => rfl

theorem NumberedBreadthFirst.getElem?_nodes_subsets (hnumbered : A.NumberedBreadthFirst)
    (h : A.Deterministic) (hi : A.isInitial i = true) :
    A.subsets.nodes[x]? = some S ↔ x < A.size ∧ S = .singleton x := by
  rw [hnumbered.nodes_subsets h hi, List.getElem?_map, Option.map_eq_some_iff, states]
  simp only [List.getElem?_eq_some_iff, List.length_range, List.getElem_range, exists_prop]
  constructor
  · rintro ⟨_, ⟨hx, rfl⟩, rfl⟩
    exact ⟨hx, rfl⟩
  · rintro ⟨hx, rfl⟩
    exact ⟨x, ⟨hx, rfl⟩, rfl⟩

/-- Determinization does not change a deterministic automaton whose states are numbered
breadth-first, unless it has names. -/
theorem NumberedBreadthFirst.determinize_eq_self (hnumbered : A.NumberedBreadthFirst)
    (h : A.Deterministic) (hi : A.isInitial i = true) (hnames : A.names = []) :
    A.determinize = A := by
  have hplace {x : Nat} {S : StateSet} :
      A.subsets.nodes[x]? = some S ↔ x < A.size ∧ S = .singleton x :=
    hnumbered.getElem?_nodes_subsets h hi
  refine eq_of_moves_iff ?_ (fun x => ?_) (fun x => ?_) (fun x label y => ?_)
    (names_ofParts.trans hnames.symm)
  · rw [determinize, Graph.size_automaton, hnumbered.nodes_subsets h hi, List.length_map, states,
      List.length_range]
  · rw [Bool.eq_iff_iff, determinize, Graph.isInitial_automaton]
    simp only [hplace, and_assoc, exists_and_left, exists_eq_left, isInitial_subsets,
      h.start_eq hi, OrderedSet.singleton_inj, h.isInitial_iff hi]
    exact and_iff_right_of_imp fun hx => hx ▸ lt_size_of_isInitial hi
  · rw [Bool.eq_iff_iff, determinize, Graph.isTerminal_automaton]
    simp only [hplace, and_assoc, exists_and_left, exists_eq_left, terminal_singleton]
    exact and_iff_right_of_imp lt_size_of_isTerminal
  · rw [determinize, A.bounded_subsets.moves_automaton]
    simp only [hplace]
    constructor
    · rintro ⟨_, _, ⟨-, rfl⟩, ⟨-, rfl⟩, hmove⟩
      exact h.moves_singleton_iff.mp hmove
    · intro hmove
      exact ⟨_, _, ⟨hmove.start_lt, rfl⟩, ⟨hmove.target_lt, rfl⟩, h.moves_singleton_iff.mpr hmove⟩

end Singletons

section Numbering

theorem toList_outgoing_determinize (hx : A.subsets.nodes[x]? = some S) :
    (A.determinize.outgoing x).toList =
      (A.subsets.moves S).map fun m => ⟨m.1, A.subsets.nodes.idxOf m.2⟩ := by
  have hbounded := A.bounded_subsets
  refine OrderedSet.eq_of_increasing_of_mem_iff (A.determinize.outgoing x).increasing ?_ fun m => ?_
  · rw [List.pairwise_map]
    exact (A.pairwise_moves_subsets S).imp fun hm => Move.precedes_iff.mpr (Or.inl hm)
  · obtain ⟨label, y⟩ := m
    change A.determinize.Moves x label y ↔ _
    rw [determinize, hbounded.moves_automaton, List.mem_map]
    constructor
    · rintro ⟨S', T, hx', hy, hmove⟩
      cases hx.symm.trans hx'
      have hplace := List.getElem?_idxOf (List.mem_of_getElem? hy)
      exact ⟨(label, T), hmove, by rw [place_unique hbounded.breadthFirst.nodup hplace hy]⟩
    · rintro ⟨⟨_, T⟩, hmove, heq⟩
      cases heq
      have hT := hbounded.mem_nodes_of_moves (List.mem_of_getElem? hx) hmove
      exact ⟨S, T, hx, List.getElem?_idxOf hT, hmove⟩

theorem toList_initials_determinize :
    A.determinize.initials.toList = [A.subsets.nodes.idxOf A.start] := by
  have hplace := List.getElem?_idxOf (start_mem_nodes_subsets (A := A))
  apply A.deterministic_determinize.toList_initials
  exact Graph.isInitial_automaton.mpr ⟨A.start, hplace, isInitial_subsets.mpr rfl⟩

/-- The states of a determinized automaton are numbered as the traversal of the sets finds them. -/
theorem numberedBreadthFirst_determinize (A : Automaton L) :
    A.determinize.NumberedBreadthFirst := by
  have hbreadth := A.bounded_subsets.breadthFirst
  have hstates : A.subsets.nodes.map A.subsets.nodes.idxOf = A.determinize.states := by
    rw [map_idxOf_of_nodup hbreadth.nodup, states, determinize, Graph.size_automaton]
  rw [NumberedBreadthFirst, toList_initials_determinize, ← hstates]
  refine hbreadth.map (fun S hS T _ hST => (List.idxOf_inj hS).mp hST) fun S hS => ?_
  rw [toList_outgoing_determinize (List.getElem?_idxOf hS), List.map_map, List.map_map]
  rfl

end Numbering

/-- Removing the silent moves, trimming, merging bisimilar states and determinizing lead to automata
that they do not change. -/
theorem repeated_constructions_change_nothing (A : Automaton L) :
    A.removeEpsilon.removeEpsilon = A.removeEpsilon ∧
    A.trim.trim = A.trim ∧
    A.reduce.reduce = A.reduce ∧
    A.determinize.determinize = A.determinize := by
  refine ⟨removeEpsilon_removeEpsilon, trim_trim.trim_eq_self names_ofParts,
    A.discerning_reduce.reduce_eq_self names_ofParts, ?_⟩
  obtain ⟨i, hi⟩ := A.exists_isInitial_determinize
  exact A.numberedBreadthFirst_determinize.determinize_eq_self A.deterministic_determinize hi
    names_ofParts

/-- A deterministic automaton whose initial state does not come first is renumbered, but only
once. -/
example :
    let late : Automaton Char :=
      .ofParts [⟨false, true⟩, ⟨true, false⟩] [⟨1, some 'a', 0⟩, ⟨0, some 'b', 1⟩]
    late.determinize.transitions = [⟨0, some 'a', 1⟩, ⟨1, some 'b', 0⟩] ∧
      late.determinize.determinize.transitions = late.determinize.transitions := by
  decide +kernel

end Automaton

end FiniteState
