import FiniteState.Proofs.Construction.Regular
/-!
Iterated automata.  Whenever a run takes a loop from a terminal state back to an initial one, it has
read an accepted word, so what is read falls into factors that are accepted one by one.  Coming back
to an initial state in another way, or going on from a terminal one, begins no factor.
-/

namespace FiniteState

universe u

variable {L : Type u} [Label L]

namespace Automaton

variable {A : Automaton L} {w : List L}

section Languages

theorem moves_plus {p q : Nat} {l : Option L} :
    A.plus.Moves p l q ↔
      A.Moves p l q ∨ A.isTerminal p = true ∧ l = none ∧ A.isInitial q = true := by
  rw [plus, moves_ofParts, List.mem_append, mem_transitions, loops, mem_bridge,
    OrderedSet.mem_toList, OrderedSet.mem_toList, mem_terminals, mem_initials, length_flags]
  apply and_iff_left_of_imp
  intro h
  rcases h with h | ⟨hp, -, hq⟩
  · exact ⟨h.start_lt, h.target_lt⟩
  · exact ⟨lt_size_of_isTerminal hp, lt_size_of_isInitial hq⟩

theorem isInitial_plus (p : Nat) : A.plus.isInitial p = A.isInitial p := by
  rw [plus, isInitial_ofParts, any_initial_flags]

theorem isTerminal_plus (p : Nat) : A.plus.isTerminal p = A.isTerminal p := by
  rw [plus, isTerminal_ofParts, any_terminal_flags]

/-- A run that takes loops is cut at them.  The first piece is accepted from the start of the run,
and each of the other pieces is a word of the language. -/
theorem exists_first_factor {p : Nat} (hw : w ∈ A.plus.languageFrom p) :
    ∃ u ∈ A.languageFrom p, ∃ v ∈ KStar.kstar A.language, u ++ v = w := by
  obtain ⟨t, hrun, ht⟩ := hw
  rw [isTerminal_plus] at ht
  induction hrun using Run.inductionOnMoves with
  | done p => exact ⟨[], ⟨p, Run.done p, ht⟩, [], Language.nil_mem_kstar _, rfl⟩
  | step p q t l w hmove hrun ih =>
      obtain ⟨u, hu, v, hv, rfl⟩ := ih ht
      rcases moves_plus.mp hmove with h | ⟨hp, rfl, hq⟩
      · exact ⟨l.toList ++ u, append_mem_languageFrom (Run.single h) hu, v, hv,
          List.append_assoc _ _ _⟩
      · refine ⟨[], ⟨p, Run.done p, hp⟩, u ++ v, ?_, rfl⟩
        rw [← Language.one_add_self_mul_kstar_eq_kstar]
        exact Or.inr (Language.append_mem_mul ⟨q, hq, hu⟩ hv)

/-- A run may go on with any number of accepted words, one loop in front of each. -/
theorem append_flatten_mem_languageFrom_plus {p : Nat} {u : List L} {factors : List (List L)}
    (hu : u ∈ A.languageFrom p) (hfactors : ∀ v ∈ factors, v ∈ A.language) :
    u ++ factors.flatten ∈ A.plus.languageFrom p := by
  have hmoves (p : Nat) (l : Option L) (q : Nat) (h : A.Moves p l q) : A.plus.Moves p l q :=
    moves_plus.mpr (Or.inl h)
  induction factors generalizing p u with
  | nil =>
      obtain ⟨t, hrun, ht⟩ := hu
      rw [List.flatten_nil, List.append_nil]
      exact ⟨t, hrun.map id hmoves, (isTerminal_plus t).trans ht⟩
  | cons v factors ih =>
      obtain ⟨⟨q, hq, hv⟩, hfactors⟩ := List.forall_mem_cons.mp hfactors
      refine append_mem_languageFrom_of_bridge hmoves (fun t ht => ?_) hu (ih hv hfactors)
      exact moves_plus.mpr (Or.inr ⟨ht, rfl, hq⟩)

theorem languageFrom_plus (p : Nat) :
    A.plus.languageFrom p = A.languageFrom p * KStar.kstar A.language := by
  ext w
  rw [Language.mem_mul]
  constructor
  · exact exists_first_factor
  · intro h
    rcases h with ⟨u, hu, v, ⟨factors, rfl, hfactors⟩, rfl⟩
    exact append_flatten_mem_languageFrom_plus hu hfactors

/-- Repeating an automaton at least once accepts the words of its language one after the other. -/
theorem language_plus : A.plus.language = A.language * KStar.kstar A.language := by
  ext w
  rw [Language.mem_mul]
  constructor
  · intro h
    rcases h with ⟨p, hp, hw⟩
    rw [isInitial_plus] at hp
    rw [languageFrom_plus, Language.mem_mul] at hw
    obtain ⟨u, hu, hv⟩ := hw
    exact ⟨u, ⟨p, hp, hu⟩, hv⟩
  · intro h
    rcases h with ⟨u, ⟨p, hp, hu⟩, hv⟩
    refine ⟨p, (isInitial_plus p).trans hp, ?_⟩
    rw [languageFrom_plus, Language.mem_mul]
    exact ⟨u, hu, hv⟩

theorem moves_star {x y : Nat} {l : Option L} :
    A.star.Moves x l y ↔
      (∃ p q, x = p + 1 ∧ y = q + 1 ∧ A.plus.Moves p l q) ∨
        x = 0 ∧ l = none ∧ ∃ q, y = q + 1 ∧ A.isInitial q = true := by
  rw [star, moves_ofParts, List.mem_append, mem_map_shift, mem_bridge, List.length_cons,
    List.length_map, length_flags, List.mem_map, List.mem_singleton]
  simp only [List.mem_append, mem_transitions, loops, mem_bridge, OrderedSet.mem_toList,
    mem_terminals, mem_initials, ← moves_plus]
  have hsize : A.plus.size = A.size := by rw [plus, size_ofParts, length_flags]
  constructor
  · intro h
    rcases h with ⟨h | ⟨hx, hl, q, hq, rfl⟩, -, -⟩
    · exact Or.inl h
    · exact Or.inr ⟨hx, hl, q, rfl, hq⟩
  · intro h
    rcases h with ⟨p, q, rfl, rfl, h⟩ | ⟨rfl, hl, q, rfl, hq⟩
    · have hp := h.start_lt
      have hq := h.target_lt
      exact ⟨Or.inl ⟨p, q, rfl, rfl, h⟩, by omega, by omega⟩
    · have hlt := lt_size_of_isInitial hq
      exact ⟨Or.inr ⟨rfl, hl, q, hq, rfl⟩, by omega, by omega⟩

theorem isInitial_star {x : Nat} : A.star.isInitial x = true ↔ x = 0 := by
  rw [star, isInitial_ofParts]
  cases x with
  | zero => simp
  | succ p =>
      rw [List.getElem?_cons_succ, List.getElem?_map, Option.any_map]
      cases A.flags[p]? <;> simp

theorem isTerminal_star_zero : A.star.isTerminal 0 = true := by
  rw [star, isTerminal_ofParts]
  rfl

theorem isTerminal_star_succ (p : Nat) : A.star.isTerminal (p + 1) = A.plus.isTerminal p := by
  rw [star, isTerminal_ofParts, List.getElem?_cons_succ, List.getElem?_map, Option.any_map,
    isTerminal_plus, ← any_terminal_flags]

theorem languageFrom_star_succ {p : Nat} (hp : p < A.plus.size) :
    A.star.languageFrom (p + 1) = A.plus.languageFrom p := by
  refine languageFrom_embedding (· + 1) ?_ (fun p _ => isTerminal_star_succ p) hp
  intro p _ l y
  rw [moves_star]
  constructor
  · intro h
    rcases h with ⟨p', q, hp', rfl, h⟩ | ⟨hp', -⟩
    · rw [Nat.add_right_cancel hp']
      exact ⟨q, rfl, h⟩
    · omega
  · intro h
    rcases h with ⟨q, rfl, h⟩
    exact Or.inl ⟨p, q, rfl, rfl, h⟩

/-- Repeating an automaton any number of times accepts the Kleene iteration of its language. -/
theorem language_star : A.star.language = KStar.kstar A.language := by
  have hlt {q : Nat} (hq : A.isInitial q = true) : q < A.plus.size := by
    rw [← isInitial_plus] at hq
    exact lt_size_of_isInitial hq
  rw [← Language.one_add_self_mul_kstar_eq_kstar, ← language_plus]
  ext w
  rw [Language.mem_add, Language.mem_one]
  constructor
  · intro h
    rcases h with ⟨x, hx, t, hrun, ht⟩
    rw [isInitial_star] at hx
    subst hx
    cases hrun using Run.inductionOnMoves with
    | done _ => exact Or.inl rfl
    | step _ y _ l w hmove hrun =>
        rcases moves_star.mp hmove with ⟨p, q, hp, -⟩ | ⟨-, rfl, q, rfl, hq⟩
        · omega
        · have hw : w ∈ A.star.languageFrom (q + 1) := ⟨t, hrun, ht⟩
          rw [languageFrom_star_succ (hlt hq)] at hw
          exact Or.inr ⟨q, (isInitial_plus q).trans hq, hw⟩
  · intro h
    rcases h with rfl | ⟨q, hq, hw⟩
    · exact ⟨0, isInitial_star.mpr rfl, 0, Run.done 0, isTerminal_star_zero⟩
    · rw [isInitial_plus] at hq
      rw [← languageFrom_star_succ (hlt hq)] at hw
      have hmove : A.star.Moves 0 none (q + 1) := moves_star.mpr (Or.inr ⟨rfl, rfl, q, rfl, hq⟩)
      exact ⟨0, isInitial_star.mpr rfl, mem_languageFrom_of_silent (Run.single hmove) hw⟩

/-- Repeating an automaton a number of times accepts that power of its language. -/
theorem language_power (n : Nat) : (A.power n).language = A.language ^ n := by
  induction n with
  | zero => rw [power, language_one, pow_zero]
  | succ n ih => rw [power, language_concatenation, ih, pow_succ]

end Languages

section Factors

/-- The factors give the word when they are joined, and each of them is accepted. -/
structure IsFactorization (A : Automaton L) (factors : List (List L)) (w : List L) : Prop where
  joined : factors.flatten = w
  accepted : ∀ v ∈ factors, A.accepts v = true

theorem isFactorization_iff {factors : List (List L)} :
    A.IsFactorization factors w ↔ w = factors.flatten ∧ ∀ v ∈ factors, v ∈ A.language := by
  simp only [← accepts_iff_mem_language]
  exact ⟨fun h => ⟨h.joined.symm, h.accepted⟩, fun h => ⟨h.1.symm, h.2⟩⟩

theorem accepts_star_iff : A.star.accepts w = true ↔ ∃ factors, A.IsFactorization factors w := by
  rw [accepts_iff_mem_language, language_star, Language.mem_kstar]
  exact exists_congr fun _ => isFactorization_iff.symm

theorem accepts_plus_iff :
    A.plus.accepts w = true ↔ ∃ factors, factors ≠ [] ∧ A.IsFactorization factors w := by
  rw [accepts_iff_mem_language, language_plus, Language.mem_mul]
  simp only [isFactorization_iff]
  constructor
  · rintro ⟨v, hv, _, ⟨factors, rfl, hfactors⟩, rfl⟩
    exact ⟨v :: factors, List.cons_ne_nil _ _, rfl, List.forall_mem_cons.mpr ⟨hv, hfactors⟩⟩
  · rintro ⟨factors, hne, rfl, hfactors⟩
    cases factors with
    | nil => exact absurd rfl hne
    | cons v factors =>
        obtain ⟨hv, hfactors⟩ := List.forall_mem_cons.mp hfactors
        exact ⟨v, hv, factors.flatten, ⟨factors, rfl, hfactors⟩, rfl⟩

theorem accepts_power_iff {n : Nat} :
    (A.power n).accepts w = true ↔ ∃ factors, factors.length = n ∧ A.IsFactorization factors w := by
  rw [accepts_iff_mem_language, language_power, Language.mem_pow]
  simp only [isFactorization_iff, and_left_comm]

/-- Iterated automata accept the words that fall into accepted factors: any number of them, at least
one, or a given number. -/
theorem iterations_accept_factored_words (A : Automaton L) (w : List L) :
    (A.star.accepts w = true ↔ ∃ factors, A.IsFactorization factors w) ∧
    (A.plus.accepts w = true ↔ ∃ factors, factors ≠ [] ∧ A.IsFactorization factors w) ∧
    ∀ n, (A.power n).accepts w = true ↔
      ∃ factors, factors.length = n ∧ A.IsFactorization factors w :=
  ⟨accepts_star_iff, accepts_plus_iff, fun _ => accepts_power_iff⟩

/-- A letter that leads back to the initial state does not end a factor. -/
example :
    let loops : Automaton Char :=
      .ofParts [⟨true, false⟩, ⟨false, true⟩] [⟨0, some 'a', 0⟩, ⟨0, some 'b', 1⟩]
    (loops.power 2).accepts ['a', 'b', 'b'] = true ∧
      (loops.power 2).accepts ['a', 'a', 'b'] = false ∧
      loops.plus.accepts ['a', 'a', 'b'] = true ∧ loops.plus.accepts [] = false := by
  decide +kernel

end Factors

end Automaton

end FiniteState
