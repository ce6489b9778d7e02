import FiniteState.Construction.Normal
import FiniteState.Proofs.Construction.Regular
/-!
Normal automata, and how normalization makes one of every automaton.  A normal automaton accepts
what leads from its first to its last state, and normalization only puts silent moves in front of
the runs of an automaton and behind them.
-/

namespace FiniteState

universe u

variable {L : Type u} [Label L]

namespace Automaton

variable {A : Automaton L} {i t p q x y : Nat} {l : Option L} {w : List L}

section Endpoints

/-- The first state is the only initial one and never entered, the last state is the only terminal
one and never left, and they differ. -/
structure Normal (A : Automaton L) (i t : Nat) : Prop where
  isInitial_iff : ∀ p, A.isInitial p = true ↔ p = i
  isTerminal_iff : ∀ p, A.isTerminal p = true ↔ p = t
  ne : i ≠ t
  not_entered : ∀ p l, ¬ A.Moves p l i
  not_left : ∀ l q, ¬ A.Moves t l q

theorem isEmpty_incoming_iff : (A.incoming q).isEmpty = true ↔ ∀ p l, ¬ A.Moves p l q := by
  rw [OrderedSet.isEmpty_iff]
  constructor
  · exact fun h p l hmove => h ⟨l, p⟩ (moves_iff_mem_incoming.mp hmove)
  · exact fun h m hm => h m.state m.label (moves_iff_mem_incoming.mpr hm)

theorem isEmpty_outgoing_iff : (A.outgoing p).isEmpty = true ↔ ∀ l q, ¬ A.Moves p l q := by
  rw [OrderedSet.isEmpty_iff]
  constructor
  · exact fun h l q => h ⟨l, q⟩
  · exact fun h m => h m.label m.state

/-- The endpoints are found exactly if the automaton is normal. -/
theorem endpoints_eq_ok_iff : A.endpoints = .ok (i, t) ↔ A.Normal i t := by
  unfold endpoints
  constructor
  · intro h
    split at h
    · rename_i i' t' hinitials hterminals
      split at h
      · cases h
      · rename_i hne
        split at h
        · cases h
        · rename_i hincoming
          split at h
          · cases h
          · rename_i houtgoing
            cases h
            refine ⟨fun p => ?_, fun p => ?_, hne, ?_, ?_⟩
            · rw [← mem_initials, OrderedSet.toList_eq_singleton_iff.mp hinitials]
            · rw [← mem_terminals, OrderedSet.toList_eq_singleton_iff.mp hterminals]
            · exact isEmpty_incoming_iff.mp (Bool.not_eq_false _ ▸ hincoming)
            · exact isEmpty_outgoing_iff.mp (Bool.not_eq_false _ ▸ houtgoing)
    · cases h
    · cases h
  · intro h
    have hinitials : A.initials.toList = [i] :=
      OrderedSet.toList_eq_singleton_iff.mpr fun p => mem_initials.trans (h.isInitial_iff p)
    have hterminals : A.terminals.toList = [t] :=
      OrderedSet.toList_eq_singleton_iff.mpr fun p => mem_terminals.trans (h.isTerminal_iff p)
    have hincoming := isEmpty_incoming_iff.mpr h.not_entered
    have houtgoing := isEmpty_outgoing_iff.mpr h.not_left
    rw [hinitials, hterminals]
    simp only
    rw [if_neg h.ne, hincoming, houtgoing, if_neg (by simp), if_neg (by simp)]

/-- A normal automaton accepts what leads from its first to its last state. -/
theorem Normal.mem_language_iff (h : A.Normal i t) : w ∈ A.language ↔ Run A.Moves i w t := by
  constructor
  · intro h
    rcases h with ⟨p, hp, q, hrun, hq⟩
    rw [h.isInitial_iff] at hp
    rw [h.isTerminal_iff] at hq
    rwa [← hp, ← hq]
  · exact fun hrun => ⟨i, (h.isInitial_iff i).mpr rfl, t, hrun, (h.isTerminal_iff t).mpr rfl⟩

end Endpoints

section Normalize

theorem moves_normalize :
    A.normalize.Moves x l y ↔
      (∃ p q, x = p + 1 ∧ y = q + 1 ∧ A.Moves p l q) ∨
      (x = 0 ∧ l = none ∧ ∃ p, y = p + 1 ∧ A.isInitial p = true) ∨
      ∃ p, x = p + 1 ∧ l = none ∧ y = A.size + 1 ∧ A.isTerminal p = true := by
  rw [normalize, moves_ofParts, List.mem_append, List.mem_append, mem_map_shift, mem_bridge,
    mem_bridge]
  simp only [mem_transitions, List.mem_map, OrderedSet.mem_toList, mem_initials, mem_terminals,
    List.mem_singleton, List.length_append, List.length_cons, List.length_map, List.length_nil,
    states, List.length_range]
  constructor
  · intro h
    rcases h with ⟨(h | ⟨hx, hl, p, hp, hy⟩) | ⟨⟨p, hp, hx⟩, hl, hy⟩, -, -⟩
    · exact Or.inl h
    · exact Or.inr (Or.inl ⟨hx, hl, p, hy.symm, hp⟩)
    · exact Or.inr (Or.inr ⟨p, hx.symm, hl, hy, hp⟩)
  · intro h
    rcases h with ⟨p, q, rfl, rfl, h⟩ | ⟨rfl, rfl, p, rfl, hp⟩ | ⟨p, rfl, rfl, rfl, hp⟩
    · have hp := h.start_lt
      have hq := h.target_lt
      exact ⟨Or.inl (Or.inl ⟨p, q, rfl, rfl, h⟩), by omega, by omega⟩
    · have hlt := lt_size_of_isInitial hp
      exact ⟨Or.inl (Or.inr ⟨rfl, rfl, p, hp, rfl⟩), by omega, by omega⟩
    · have hlt := lt_size_of_isTerminal hp
      exact ⟨Or.inr ⟨⟨p, hp, rfl⟩, rfl, rfl⟩, by omega, by omega⟩

/-- The former states have none of the flags any more. -/
theorem not_any_inner {flag : Flags → Bool} (hflag : flag ⟨false, false⟩ = false) :
    ¬ (A.states.map fun _ => (⟨false, false⟩ : Flags))[x]?.any flag = true := by
  rw [states, any_map_range, hflag]
  simp

theorem isInitial_normalize : A.normalize.isInitial x = true ↔ x = 0 := by
  rw [normalize, isInitial_ofParts, any_getElem?_append]
  constructor
  · intro h
    rcases h with h | ⟨p, -, h⟩
    · cases x with
      | zero => rfl
      | succ x => exact absurd h (not_any_inner rfl)
    · cases p <;> simp at h
  · rintro rfl
    exact Or.inl rfl

theorem isTerminal_normalize : A.normalize.isTerminal x = true ↔ x = A.size + 1 := by
  rw [normalize, isTerminal_ofParts, any_getElem?_append]
  constructor
  · intro h
    rcases h with h | ⟨p, hx, h⟩
    · cases x with
      | zero => simp at h
      | succ x => exact absurd h (not_any_inner rfl)
    · cases p with
      | zero => simpa [states] using hx
      | succ p => simp at h
  · rintro rfl
    exact Or.inr ⟨0, by simp [states], rfl⟩

/-- Normalization gives a normal automaton, from its first to its last state. -/
theorem normal_normalize (A : Automaton L) : A.normalize.Normal 0 (A.size + 1) := by
  refine ⟨fun _ => isInitial_normalize, fun _ => isTerminal_normalize, by omega, ?_, ?_⟩
  · intro x l hmove
    rcases moves_normalize.mp hmove with ⟨p, q, -, hy, -⟩ | ⟨-, -, p, hy, -⟩ | ⟨p, -, -, hy, -⟩
    · omega
    · omega
    · omega
  · intro l y hmove
    rcases moves_normalize.mp hmove with ⟨p, q, hx, -, h⟩ | ⟨hx, -⟩ | ⟨p, hx, -, -, h⟩
    · have hlt := h.start_lt
      omega
    · omega
    · have hlt := lt_size_of_isTerminal h
      omega

/-- What leads from a former state to the last one was accepted by it. -/
theorem mem_languageFrom_of_run_normalize (hrun : Run A.normalize.Moves (p + 1) w (A.size + 1))
    (hp : p < A.size) : w ∈ A.languageFrom p := by
  generalize hx : p + 1 = x at hrun
  generalize hy : A.size + 1 = y at hrun
  induction hrun using Run.inductionOnMoves generalizing p with
  | done x => omega
  | step x z y l w hmove hrest ih =>
      rcases moves_normalize.mp hmove with ⟨p', q, hx', rfl, h⟩ | ⟨hx', -⟩ | ⟨p', hx', rfl, rfl, h⟩
      · have hp' : p = p' := by omega
        subst hp'
        exact append_mem_languageFrom (Run.single h) (ih h.target_lt rfl hy)
      · omega
      · have hp' : p = p' := by omega
        subst hp' hy
        have hw : w = [] := by
          cases hrest with
          | done _ => rfl
          | silent hmove _ => exact absurd hmove (A.normal_normalize.not_left _ _)
          | read hmove _ => exact absurd hmove (A.normal_normalize.not_left _ _)
        subst hw
        exact ⟨p, Run.done p, h⟩

/-- Normalization keeps the language. -/
theorem language_normalize (A : Automaton L) : A.normalize.language = A.language := by
  ext w
  rw [A.normal_normalize.mem_language_iff]
  constructor
  · intro hrun
    generalize hx : 0 = x at hrun
    generalize hy : A.size + 1 = y at hrun
    cases hrun using Run.inductionOnMoves with
    | done x => omega
    | step x z y l w hmove hrest _ =>
        rcases moves_normalize.mp hmove with ⟨p, q, hx', -⟩ | ⟨-, rfl, p, rfl, hp⟩ | ⟨p, hx', -⟩
        · omega
        · subst hy
          exact ⟨p, hp, mem_languageFrom_of_run_normalize hrest (lt_size_of_isInitial hp)⟩
        · omega
  · intro h
    rcases h with ⟨p, hp, q, hrun, hq⟩
    have hinner : Run A.normalize.Moves (p + 1) w (q + 1) :=
      hrun.map (· + 1) fun p l q h => moves_normalize.mpr (Or.inl ⟨p, q, rfl, rfl, h⟩)
    have hfirst : A.normalize.Moves 0 none (p + 1) :=
      moves_normalize.mpr (Or.inr (Or.inl ⟨rfl, rfl, p, rfl, hp⟩))
    have hlast : A.normalize.Moves (q + 1) none (A.size + 1) :=
      moves_normalize.mpr (Or.inr (Or.inr ⟨q, rfl, rfl, rfl, hq⟩))
    have hall := Run.silent hfirst (hinner.append (Run.single hlast))
    simpa using hall

theorem size_normalize (A : Automaton L) : A.normalize.size = A.size + 2 := by
  simp [normalize, states]

end Normalize

/-- Normalization keeps the accepted words and leads to a normal automaton between its first and its
last state.  Endpoints are found exactly in the automata whose only initial state is never entered
and whose only terminal state, which is another one, is never left. -/
theorem normal_form_is_reached_and_recognized (A : Automaton L) :
    (∀ w, A.normalize.accepts w = A.accepts w) ∧
    A.normalize.size = A.size + 2 ∧
    A.normalize.endpoints = .ok (0, A.size + 1) ∧
    ∀ i t, A.endpoints = .ok (i, t) ↔
      (∀ p, p ∈ A.initials ↔ p = i) ∧ (∀ p, p ∈ A.terminals ↔ p = t) ∧ i ≠ t ∧
        (∀ s ∈ A.transitions, s.target ≠ i) ∧ ∀ s ∈ A.transitions, s.start ≠ t := by
  refine ⟨language_eq_iff.mp A.language_normalize, A.size_normalize,
    endpoints_eq_ok_iff.mpr A.normal_normalize, fun i t => ?_⟩
  simp only [endpoints_eq_ok_iff, mem_initials, mem_terminals, mem_transitions]
  constructor
  · intro h
    refine ⟨h.isInitial_iff, h.isTerminal_iff, h.ne, ?_, ?_⟩
    · rintro ⟨p, l, q⟩ hmove rfl
      exact h.not_entered p l hmove
    · rintro ⟨p, l, q⟩ hmove rfl
      exact h.not_left l q hmove
  · rintro ⟨hinitial, hterminal, hne, hentered, hleft⟩
    exact ⟨hinitial, hterminal, hne, fun p l hmove => hentered ⟨p, l, i⟩ hmove rfl,
      fun l q hmove => hleft ⟨t, l, q⟩ hmove rfl⟩

/-- An initial state that is terminal as well is led to by one new state and left to the other. -/
example :
    let loop : Automaton Char := .ofParts [⟨true, true⟩] [⟨0, some 'a', 0⟩]
    loop.endpoints = .error (.shared 0) ∧
      loop.normalize.transitions = [⟨0, none, 1⟩, ⟨1, none, 2⟩, ⟨1, some 'a', 1⟩] ∧
      loop.normalize.endpoints = .ok (0, 2) := by
  decide +kernel

end Automaton

end FiniteState
