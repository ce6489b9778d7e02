import FiniteState.Construction.Regular
import FiniteState.Proofs.Automaton.Language
import FiniteState.Proofs.Automaton.Parts
/-!
Letters, unions and concatenations.  Two automata side by side accept the words of both, and one
after the other they accept the words that can be cut in two, for any initial and terminal states.
-/

namespace FiniteState

universe u

variable {L : Type u} [Label L]

namespace Automaton

variable {A B : Automaton L} {w : List L}

section Shift

variable {ts : List (Transition L)} {p q : Nat} {l : Option L}

omit [Label L] in
theorem mem_map_shift {n x y : Nat} :
    ⟨x, l, y⟩ ∈ ts.map (Transition.shift n) ↔
      ∃ p q, x = p + n ∧ y = q + n ∧ ⟨p, l, q⟩ ∈ ts := by
  rw [List.mem_map]
  constructor
  · intro h
    rcases h with ⟨⟨p, l', q⟩, ht, h⟩
    simp only [Transition.shift, Transition.mk.injEq] at h
    obtain ⟨rfl, rfl, rfl⟩ := h
    exact ⟨p, q, rfl, rfl, ht⟩
  · intro h
    rcases h with ⟨p, q, rfl, rfl, ht⟩
    exact ⟨⟨p, l, q⟩, ht, rfl⟩

omit [Label L] in
theorem mem_bridge {ends starts : List Nat} :
    ⟨p, l, q⟩ ∈ bridge ends starts ↔ p ∈ ends ∧ l = none ∧ q ∈ starts := by
  simp only [bridge, List.mem_flatMap, List.mem_map, Transition.mk.injEq]
  constructor
  · intro h
    rcases h with ⟨_, hp, _, hq, rfl, rfl, rfl⟩
    exact ⟨hp, rfl, hq⟩
  · intro h
    rcases h with ⟨hp, rfl, hq⟩
    exact ⟨p, hp, q, hq, rfl, rfl, rfl⟩

end Shift

section Atoms

theorem language_zero : (zero : Automaton L).language = 0 := by
  refine Set.eq_empty_of_forall_notMem fun w => ?_
  intro h
  rcases h with ⟨p, -, q, -, hq⟩
  rw [zero, isTerminal_ofParts] at hq
  cases q <;> simp at hq

theorem language_one : (one : Automaton L).language = 1 := by
  have hmoves (p l q) : ¬ (one : Automaton L).Moves p l q := by
    rw [one, moves_ofParts]
    simp
  ext w
  rw [Language.mem_one]
  constructor
  · intro h
    rcases h with ⟨p, -, q, hrun, -⟩
    cases hrun with
    | done _ => rfl
    | silent hmove _ => exact absurd hmove (hmoves _ _ _)
    | read hmove _ => exact absurd hmove (hmoves _ _ _)
  · rintro rfl
    exact ⟨0, by simp [one], 0, Run.done 0, by simp [one]⟩

theorem moves_letter {a : L} {p q : Nat} {l : Option L} :
    (letter a).Moves p l q ↔ p = 0 ∧ l = some a ∧ q = 1 := by
  rw [letter, moves_ofParts]
  simp only [List.mem_singleton, Transition.mk.injEq]
  constructor
  · exact fun h => h.1
  · intro h
    rcases h with ⟨rfl, rfl, rfl⟩
    exact ⟨⟨rfl, rfl, rfl⟩, by simp, by simp⟩

theorem language_letter (a : L) : (letter a).language = ({[a]} : Language L) := by
  have hterminal (q) : (letter a).isTerminal q = true ↔ q = 1 := by
    rw [letter, isTerminal_ofParts]
    rcases q with _ | _ | q <;> simp
  have hinitial (p) : (letter a).isInitial p = true ↔ p = 0 := by
    rw [letter, isInitial_ofParts]
    rcases p with _ | _ | p <;> simp
  ext w
  constructor
  · intro h
    rcases h with ⟨p, hp, q, hrun, hq⟩
    rw [hinitial] at hp
    rw [hterminal] at hq
    subst hp hq
    obtain ⟨l, w', hmove, hrest, rfl⟩ : ∃ l w', (letter a).Moves 0 (some l) 1 ∧
        Run (letter a).Moves 1 w' 1 ∧ w = l :: w' := by
      cases hrun with
      | silent hmove _ => simp [moves_letter] at hmove
      | read hmove hrest =>
          obtain ⟨-, hl, rfl⟩ := moves_letter.mp hmove
          exact ⟨_, _, hmove, hrest, rfl⟩
    obtain ⟨-, hl, -⟩ := moves_letter.mp hmove
    cases hl
    cases hrest with
    | done _ => rfl
    | silent hmove _ => simp [moves_letter] at hmove
    | read hmove _ => simp [moves_letter] at hmove
  · rintro rfl
    exact ⟨0, (hinitial 0).mpr rfl, 1,
      Run.single (l := some a) (moves_letter.mpr ⟨rfl, rfl, rfl⟩), (hterminal 1).mpr rfl⟩

end Atoms

section Union

theorem moves_union {x y : Nat} {l : Option L} :
    (A.union B).Moves x l y ↔
      A.Moves x l y ∨ ∃ p q, x = p + A.size ∧ y = q + A.size ∧ B.Moves p l q := by
  rw [union, moves_ofParts, List.mem_append, mem_transitions, mem_map_shift, List.length_append,
    length_flags, length_flags]
  simp only [mem_transitions]
  apply and_iff_left_of_imp
  intro h
  rcases h with h | ⟨p, q, rfl, rfl, h⟩
  · exact ⟨Nat.lt_add_right _ h.start_lt, Nat.lt_add_right _ h.target_lt⟩
  · have hp := h.start_lt
    have hq := h.target_lt
    exact ⟨by omega, by omega⟩

theorem isInitial_union {x : Nat} :
    (A.union B).isInitial x = true ↔
      A.isInitial x = true ∨ ∃ p, x = p + A.size ∧ B.isInitial p = true := by
  rw [union, isInitial_ofParts, any_getElem?_append, length_flags]
  simp only [any_initial_flags]

theorem isTerminal_union {x : Nat} :
    (A.union B).isTerminal x = true ↔
      A.isTerminal x = true ∨ ∃ p, x = p + A.size ∧ B.isTerminal p = true := by
  rw [union, isTerminal_ofParts, any_getElem?_append, length_flags]
  simp only [any_terminal_flags]

theorem languageFrom_union_left {p : Nat} (hp : p < A.size) :
    (A.union B).languageFrom p = A.languageFrom p := by
  refine languageFrom_embedding id ?_ ?_ hp
  · intro p hp l y
    rw [id_eq, moves_union]
    constructor
    · intro h
      rcases h with h | ⟨p', q, rfl, -⟩
      · exact ⟨y, rfl, h⟩
      · omega
    · intro h
      rcases h with ⟨q, rfl, h⟩
      exact Or.inl h
  · intro p hp
    rw [id_eq, Bool.eq_iff_iff, isTerminal_union]
    refine ⟨fun h => h.resolve_right ?_, Or.inl⟩
    intro h
    rcases h with ⟨p', rfl, -⟩
    omega

theorem languageFrom_union_right {p : Nat} (hp : p < B.size) :
    (A.union B).languageFrom (p + A.size) = B.languageFrom p := by
  refine languageFrom_embedding (· + A.size) ?_ ?_ hp
  · intro p _ l y
    rw [moves_union]
    constructor
    · intro h
      rcases h with h | ⟨p', q, hp', rfl, h⟩
      · exact absurd h.start_lt (by omega)
      · rw [Nat.add_right_cancel hp']
        exact ⟨q, rfl, h⟩
    · intro h
      rcases h with ⟨q, rfl, h⟩
      exact Or.inr ⟨p, q, rfl, rfl, h⟩
  · intro p _
    rw [Bool.eq_iff_iff, isTerminal_union]
    constructor
    · intro h
      rcases h with h | ⟨p', hp', h⟩
      · exact absurd (lt_size_of_isTerminal h) (by omega)
      · rwa [Nat.add_right_cancel hp']
    · exact fun h => Or.inr ⟨p, rfl, h⟩

/-- The two automata side by side accept the words of both. -/
theorem language_union : (A.union B).language = A.language + B.language := by
  ext w
  rw [Language.mem_add]
  constructor
  · intro h
    rcases h with ⟨x, hx, hw⟩
    rcases isInitial_union.mp hx with hp | ⟨p, rfl, hp⟩
    · rw [languageFrom_union_left (lt_size_of_isInitial hp)] at hw
      exact Or.inl ⟨x, hp, hw⟩
    · rw [languageFrom_union_right (lt_size_of_isInitial hp)] at hw
      exact Or.inr ⟨p, hp, hw⟩
  · intro h
    rcases h with ⟨p, hp, hw⟩ | ⟨p, hp, hw⟩
    · rw [← languageFrom_union_left (lt_size_of_isInitial hp)] at hw
      exact ⟨p, isInitial_union.mpr (Or.inl hp), hw⟩
    · rw [← languageFrom_union_right (lt_size_of_isInitial hp)] at hw
      exact ⟨p + A.size, isInitial_union.mpr (Or.inr ⟨p, rfl, hp⟩), hw⟩

end Union

section Concatenation

theorem moves_concatenation {x y : Nat} {l : Option L} :
    (A.concatenation B).Moves x l y ↔
      A.Moves x l y ∨ (∃ p q, x = p + A.size ∧ y = q + A.size ∧ B.Moves p l q) ∨
        A.isTerminal x = true ∧ l = none ∧ ∃ q, y = q + A.size ∧ B.isInitial q = true := by
  rw [concatenation, moves_ofParts, List.mem_append, List.mem_append, mem_transitions,
    mem_map_shift, mem_bridge, OrderedSet.mem_toList, mem_terminals, List.mem_map,
    List.length_append, List.length_map, List.length_map, length_flags, length_flags]
  simp only [mem_transitions, OrderedSet.mem_toList, mem_initials]
  constructor
  · intro h
    rcases h with ⟨(h | h) | ⟨hx, hl, q, hq, rfl⟩, -, -⟩
    · exact Or.inl h
    · exact Or.inr (Or.inl h)
    · exact Or.inr (Or.inr ⟨hx, hl, q, rfl, hq⟩)
  · intro h
    rcases h with h | ⟨p, q, rfl, rfl, h⟩ | ⟨hx, hl, q, rfl, hq⟩
    · exact ⟨Or.inl (Or.inl h), Nat.lt_add_right _ h.start_lt, Nat.lt_add_right _ h.target_lt⟩
    · have hp := h.start_lt
      have hq := h.target_lt
      exact ⟨Or.inl (Or.inr ⟨p, q, rfl, rfl, h⟩), by omega, by omega⟩
    · have hlt := lt_size_of_isTerminal hx
      have hlt' := lt_size_of_isInitial hq
      exact ⟨Or.inr ⟨hx, hl, q, hq, rfl⟩, by omega, by omega⟩

theorem isInitial_concatenation {x : Nat} :
    (A.concatenation B).isInitial x = true ↔ A.isInitial x = true := by
  rw [concatenation, isInitial_ofParts, any_getElem?_append, List.getElem?_map, Option.any_map,
    ← any_initial_flags]
  apply or_iff_left
  intro h
  rcases h with ⟨p, -, h⟩
  rw [List.getElem?_map, Option.any_map] at h
  cases hf : B.flags[p]? <;> simp [hf] at h

theorem isTerminal_concatenation {x : Nat} :
    (A.concatenation B).isTerminal x = true ↔ ∃ p, x = p + A.size ∧ B.isTerminal p = true := by
  rw [concatenation, isTerminal_ofParts, any_getElem?_append, List.length_map, length_flags]
  simp only [List.getElem?_map, Option.any_map, any_terminal_flags]
  apply or_iff_right
  cases A.flags[x]? <;> simp

theorem languageFrom_concatenation_right {p : Nat} (hp : p < B.size) :
    (A.concatenation B).languageFrom (p + A.size) = B.languageFrom p := by
  refine languageFrom_embedding (· + A.size) ?_ ?_ hp
  · intro p _ l y
    rw [moves_concatenation]
    constructor
    · intro h
      rcases h with h | ⟨p', q, hp', rfl, h⟩ | ⟨hx, -⟩
      · exact absurd h.start_lt (by omega)
      · rw [Nat.add_right_cancel hp']
        exact ⟨q, rfl, h⟩
      · exact absurd (lt_size_of_isTerminal hx) (by omega)
    · intro h
      rcases h with ⟨q, rfl, h⟩
      exact Or.inr (Or.inl ⟨p, q, rfl, rfl, h⟩)
  · intro p _
    rw [Bool.eq_iff_iff, isTerminal_concatenation]
    constructor
    · intro h
      rcases h with ⟨p', hp', h⟩
      rwa [Nat.add_right_cancel hp']
    · exact fun h => ⟨p, rfl, h⟩

/-- A run that starts in the first automaton and ends in a terminal state crosses over once.  What
it reads before is accepted by the first automaton, and what it reads then by the second one. -/
theorem exists_crossing {p : Nat} (hp : p < A.size) (hw : w ∈ (A.concatenation B).languageFrom p) :
    ∃ u ∈ A.languageFrom p, ∃ v ∈ B.language, u ++ v = w := by
  obtain ⟨x, hrun, hx⟩ := hw
  induction hrun using Run.inductionOnMoves with
  | done p =>
      obtain ⟨p', rfl, -⟩ := isTerminal_concatenation.mp hx
      omega
  | step p y x l w hmove hrun ih =>
      rcases moves_concatenation.mp hmove with h | ⟨p', q, rfl, -⟩ | ⟨hterm, rfl, q, rfl, hq⟩
      · obtain ⟨u, hu, v, hv, rfl⟩ := ih h.target_lt hx
        exact ⟨l.toList ++ u, append_mem_languageFrom (Run.single h) hu, v, hv,
          List.append_assoc _ _ _⟩
      · omega
      · have hw : w ∈ (A.concatenation B).languageFrom (q + A.size) := ⟨x, hrun, hx⟩
        rw [languageFrom_concatenation_right (lt_size_of_isInitial hq)] at hw
        exact ⟨[], ⟨p, Run.done p, hterm⟩, w, ⟨q, hq, hw⟩, rfl⟩

theorem languageFrom_concatenation_left {p : Nat} (hp : p < A.size) :
    (A.concatenation B).languageFrom p = A.languageFrom p * B.language := by
  ext w
  rw [Language.mem_mul]
  constructor
  · exact exists_crossing hp
  · intro h
    rcases h with ⟨u, hu, v, ⟨q, hq, hv⟩, rfl⟩
    rw [← languageFrom_concatenation_right (lt_size_of_isInitial hq)] at hv
    refine append_mem_languageFrom_of_bridge (fun _ _ _ h => ?_) (fun t ht => ?_) hu hv
    · exact moves_concatenation.mpr (Or.inl h)
    · exact moves_concatenation.mpr (Or.inr (Or.inr ⟨ht, rfl, q, rfl, hq⟩))

/-- One automaton after the other accepts the concatenation of their languages. -/
theorem language_concatenation : (A.concatenation B).language = A.language * B.language := by
  ext w
  rw [Language.mem_mul]
  constructor
  · intro h
    rcases h with ⟨p, hp, hw⟩
    rw [isInitial_concatenation] at hp
    rw [languageFrom_concatenation_left (lt_size_of_isInitial hp), Language.mem_mul] at hw
    obtain ⟨u, hu, hv⟩ := hw
    exact ⟨u, ⟨p, hp, hu⟩, hv⟩
  · intro h
    rcases h with ⟨u, ⟨p, hp, hu⟩, hv⟩
    refine ⟨p, isInitial_concatenation.mpr hp, ?_⟩
    rw [languageFrom_concatenation_left (lt_size_of_isInitial hp), Language.mem_mul]
    exact ⟨u, hu, hv⟩

/-- Two automata side by side accept what one of them accepts, and one after the other they accept
what can be cut into a word for each of them.  They may be one and the same automaton. -/
theorem union_accepts_either_and_concatenation_both (A B : Automaton L) (w : List L) :
    ((A.union B).accepts w = true ↔ A.accepts w = true ∨ B.accepts w = true) ∧
    ((A.concatenation B).accepts w = true ↔
      ∃ u v, u ++ v = w ∧ A.accepts u = true ∧ B.accepts v = true) := by
  simp only [accepts_iff_mem_language, language_union, language_concatenation]
  refine ⟨Language.mem_add _ _ _, Language.mem_mul.trans ?_⟩
  constructor
  · rintro ⟨u, hu, v, hv, huv⟩
    exact ⟨u, v, huv, hu, hv⟩
  · rintro ⟨u, v, huv, hu, hv⟩
    exact ⟨u, hu, v, hv, huv⟩

/-- An initial state of the second automaton that is entered again leads on as before. -/
example :
    let loop : Automaton Char := .ofParts [⟨true, true⟩] [⟨0, some 'a', 0⟩]
    (loop.concatenation loop).accepts ['a', 'a', 'a'] = true ∧
      ((letter 'b').concatenation loop).accepts ['b', 'a', 'a'] = true ∧
      (loop.concatenation (letter 'b')).accepts ['a', 'b', 'a'] = false := by
  decide +kernel

end Concatenation

end Automaton

end FiniteState
