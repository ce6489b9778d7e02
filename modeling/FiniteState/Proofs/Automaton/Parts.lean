import FiniteState.Automaton.Build
import FiniteState.Proofs.Automaton.Moves
import Mathlib.Data.List.Basic
/-!
Automata from their parts have exactly the flags that were given, and exactly those of the given
transitions whose ends are states.
-/

namespace FiniteState

universe u

variable {L : Type u} [Label L]

namespace Automaton

variable {A : Automaton L}

section States

theorem moves_addState (A : Automaton L) (initial terminal : Bool) {p q : Nat} {l : Option L} :
    (A.addState initial terminal).Moves p l q ↔ A.Moves p l q := by
  rw [moves_iff_mem_statesAt, moves_iff_mem_statesAt]
  exact iff_of_eq (congrArg (q ∈ Adjacency.statesAt · l) (Arena.adjacencyAt_push_empty p))

theorem arena_flags_foldl_addState (A : Automaton L) (flags : List Flags) :
    (flags.foldl (fun A f => A.addState f.initial f.terminal) A).arena.flags.toList =
      A.arena.flags.toList ++ flags := by
  induction flags generalizing A with
  | nil => simp
  | cons f rest ih =>
      rw [List.foldl_cons, ih]
      simp [addState, Arena.addState]

theorem names_foldl_addState (A : Automaton L) (flags : List Flags) :
    (flags.foldl (fun A f => A.addState f.initial f.terminal) A).names = A.names := by
  induction flags generalizing A with
  | nil => rfl
  | cons f rest ih =>
      rw [List.foldl_cons, ih]
      rfl

theorem moves_foldl_addState (A : Automaton L) (flags : List Flags) {p q : Nat} {l : Option L} :
    (flags.foldl (fun A f => A.addState f.initial f.terminal) A).Moves p l q ↔
      A.Moves p l q := by
  induction flags generalizing A with
  | nil => rfl
  | cons f rest ih => rw [List.foldl_cons, ih, moves_addState]

theorem getElem?_arena_flags_ofStates (flags : List Flags) (p : Nat) :
    (ofStates flags : Automaton L).arena.flags[p]? = flags[p]? := by
  rw [← Array.getElem?_toList, ofStates, arena_flags_foldl_addState]
  rfl

theorem size_ofStates (flags : List Flags) :
    (ofStates flags : Automaton L).size = flags.length := by
  have h := congrArg List.length (arena_flags_foldl_addState (empty : Automaton L) flags)
  simpa [ofStates, size, empty, Arena.empty] using h

theorem isInitial_ofStates (flags : List Flags) (p : Nat) :
    (ofStates flags : Automaton L).isInitial p = flags[p]?.any Flags.initial := by
  rw [isInitial, getElem?_arena_flags_ofStates]

theorem isTerminal_ofStates (flags : List Flags) (p : Nat) :
    (ofStates flags : Automaton L).isTerminal p = flags[p]?.any Flags.terminal := by
  rw [isTerminal, getElem?_arena_flags_ofStates]

theorem not_moves_ofStates (flags : List Flags) (p : Nat) (l : Option L) (q : Nat) :
    ¬ (ofStates flags : Automaton L).Moves p l q := by
  rw [ofStates, moves_foldl_addState, moves_iff_mem_statesAt]
  exact Adjacency.not_mem_statesAt_empty

end States

section Connect

theorem size_connect (A : Automaton L) (t : Transition L) : (A.connect t).size = A.size := by
  unfold connect
  split
  · exact congrArg Array.size (Arena.link_flags A.arena t)
  · rfl

theorem names_connect (A : Automaton L) (t : Transition L) : (A.connect t).names = A.names := by
  unfold connect
  split
  · exact Arena.link_names A.arena t
  · rfl

theorem isInitial_connect (A : Automaton L) (t : Transition L) (p : Nat) :
    (A.connect t).isInitial p = A.isInitial p := by
  unfold connect
  split
  · simp [isInitial, link]
  · rfl

theorem isTerminal_connect (A : Automaton L) (t : Transition L) (p : Nat) :
    (A.connect t).isTerminal p = A.isTerminal p := by
  unfold connect
  split
  · simp [isTerminal, link]
  · rfl

theorem moves_connect {t : Transition L} {p q : Nat} {l : Option L} :
    (A.connect t).Moves p l q ↔
      A.Moves p l q ∨ t = ⟨p, l, q⟩ ∧ p < A.size ∧ q < A.size := by
  unfold connect
  split
  · rename_i h
    have hstart : t.start < A.arena.outgoing.size := A.wellFormed.outgoing_size ▸ h.1
    rw [moves_iff_mem_statesAt, moves_iff_mem_statesAt, link, Arena.outgoingAt,
      Arena.link_outgoing, Arena.mem_statesAt_modify hstart]
    obtain ⟨start, label, target⟩ := t
    simp only [Transition.mk.injEq] at h ⊢
    constructor
    · intro h
      rcases h with ⟨rfl, rfl, rfl⟩ | hmove
      · exact Or.inr ⟨⟨rfl, rfl, rfl⟩, h.1, h.2⟩
      · exact Or.inl hmove
    · intro h
      rcases h with hmove | ⟨⟨rfl, rfl, rfl⟩, -, -⟩
      · exact Or.inr hmove
      · exact Or.inl ⟨rfl, rfl, rfl⟩
  · rename_i h
    refine ⟨Or.inl, fun hmove => hmove.resolve_right ?_⟩
    rintro ⟨rfl, hp, hq⟩
    exact h ⟨hp, hq⟩

end Connect

section Parts

variable {flags : List Flags} {transitions : List (Transition L)}

theorem size_foldl_connect (A : Automaton L) (transitions : List (Transition L)) :
    (transitions.foldl connect A).size = A.size := by
  induction transitions generalizing A with
  | nil => rfl
  | cons t rest ih => rw [List.foldl_cons, ih, size_connect]

theorem moves_foldl_connect {p q : Nat} {l : Option L} :
    (transitions.foldl connect A).Moves p l q ↔
      A.Moves p l q ∨ ⟨p, l, q⟩ ∈ transitions ∧ p < A.size ∧ q < A.size := by
  induction transitions generalizing A with
  | nil => simp
  | cons t rest ih =>
      rw [List.foldl_cons, ih, moves_connect, size_connect, List.mem_cons, or_and_right, or_assoc,
        eq_comm (a := t)]

theorem isInitial_foldl_connect (A : Automaton L) (transitions : List (Transition L)) (p : Nat) :
    (transitions.foldl connect A).isInitial p = A.isInitial p := by
  induction transitions generalizing A with
  | nil => rfl
  | cons t rest ih => rw [List.foldl_cons, ih, isInitial_connect]

theorem isTerminal_foldl_connect (A : Automaton L) (transitions : List (Transition L)) (p : Nat) :
    (transitions.foldl connect A).isTerminal p = A.isTerminal p := by
  induction transitions generalizing A with
  | nil => rfl
  | cons t rest ih => rw [List.foldl_cons, ih, isTerminal_connect]

theorem names_foldl_connect (A : Automaton L) (transitions : List (Transition L)) :
    (transitions.foldl connect A).names = A.names := by
  induction transitions generalizing A with
  | nil => rfl
  | cons t rest ih => rw [List.foldl_cons, ih, names_connect]

@[simp] theorem size_ofParts : (ofParts flags transitions).size = flags.length := by
  rw [ofParts, size_foldl_connect, size_ofStates]

@[simp] theorem isInitial_ofParts (p : Nat) :
    (ofParts flags transitions).isInitial p = flags[p]?.any Flags.initial := by
  rw [ofParts, isInitial_foldl_connect, isInitial_ofStates]

@[simp] theorem isTerminal_ofParts (p : Nat) :
    (ofParts flags transitions).isTerminal p = flags[p]?.any Flags.terminal := by
  rw [ofParts, isTerminal_foldl_connect, isTerminal_ofStates]

@[simp] theorem names_ofParts : (ofParts flags transitions).names = [] := by
  rw [ofParts, names_foldl_connect, ofStates, names_foldl_addState]
  rfl

theorem moves_ofParts {p q : Nat} {l : Option L} :
    (ofParts flags transitions).Moves p l q ↔
      ⟨p, l, q⟩ ∈ transitions ∧ p < flags.length ∧ q < flags.length := by
  rw [ofParts, moves_foldl_connect, size_ofStates]
  exact or_iff_right (not_moves_ofStates flags p l q)

end Parts

section Flags

@[simp] theorem length_flags (A : Automaton L) : A.flags.length = A.size := by
  simp [flags, states]

theorem getElem?_flags (A : Automaton L) (p : Nat) :
    A.flags[p]? = if p < A.size then some ⟨A.isInitial p, A.isTerminal p⟩ else none := by
  rw [flags, List.getElem?_map, states]
  split
  · rename_i hp
    rw [List.getElem?_range hp, Option.map_some]
  · rename_i hp
    rw [List.getElem?_eq_none (by simpa using hp), Option.map_none]

theorem any_initial_flags (A : Automaton L) (p : Nat) :
    A.flags[p]?.any Flags.initial = A.isInitial p := by
  rw [getElem?_flags]
  split
  · rfl
  · rename_i hp
    exact (Bool.eq_false_iff.mpr fun h => hp (lt_size_of_isInitial h)).symm

theorem any_terminal_flags (A : Automaton L) (p : Nat) :
    A.flags[p]?.any Flags.terminal = A.isTerminal p := by
  rw [getElem?_flags]
  split
  · rfl
  · rename_i hp
    exact (Bool.eq_false_iff.mpr fun h => hp (lt_size_of_isTerminal h)).symm

theorem any_map_range {n x : Nat} {f : Nat → Flags} {flag : Flags → Bool} :
    ((List.range n).map f)[x]?.any flag = true ↔ x < n ∧ flag (f x) = true := by
  rw [List.getElem?_map, Option.any_map]
  by_cases hx : x < n <;> simp [hx]

theorem any_getElem?_append {front back : List Flags} {flag : Flags → Bool} {x : Nat} :
    (front ++ back)[x]?.any flag = true ↔
      front[x]?.any flag = true ∨ ∃ p, x = p + front.length ∧ back[p]?.any flag = true := by
  rw [List.getElem?_append]
  split
  · rename_i hx
    refine ⟨Or.inl, fun h => h.resolve_right ?_⟩
    intro h
    rcases h with ⟨p, rfl, -⟩
    omega
  · rename_i hx
    have hback : front[x]? = none := List.getElem?_eq_none (Nat.le_of_not_lt hx)
    rw [hback]
    constructor
    · exact fun h => Or.inr ⟨x - front.length, by omega, h⟩
    · intro h
      rcases h with h | ⟨p, rfl, h⟩
      · exact absurd h (by simp)
      · rwa [Nat.add_sub_cancel]

end Flags

end Automaton

end FiniteState
