import FiniteState.Proofs.Expression.RoundTrip
/-!
Automata whose texts nest parentheses arbitrarily deeply.  In a ladder one can climb from every
state to the next one and go back.  Eliminating the states from the bottom wraps the loop on one
state into the loop on the next one, and every such loop needs a pair of parentheses.  Printing
does not limit the depth but reading does, so not every text of an automaton is read back.
-/

namespace FiniteState

/-- The ladder with `m` ways back.  It is entered at the top, below the last state. -/
def ladder (m : Nat) : Automaton Char :=
  .ofParts ((List.range (m + 3)).map fun p => ⟨p == 0, p == m + 2⟩)
    (⟨0, some 'a', m + 1⟩ ::
      ((List.range (m + 1)).map fun k => ⟨k + 1, some 'a', k + 2⟩) ++
      ((List.range m).map fun k => ⟨k + 2, some 'b', k + 1⟩))

namespace Ladder

variable {m k p r : Nat} {table : EdgeTable Char}

section Moves

/-- The moves of a ladder that read `a`. -/
abbrev Climbs (m p r : Nat) : Prop :=
  p = 0 ∧ r = m + 1 ∨ 0 < p ∧ p ≤ m + 1 ∧ r = p + 1

/-- The moves of a ladder that read `b`. -/
abbrev Descends (m p r : Nat) : Prop :=
  0 < r ∧ r ≤ m ∧ p = r + 1

theorem moves_iff {l : Option Char} :
    (ladder m).Moves p l r ↔ l = some 'a' ∧ Climbs m p r ∨ l = some 'b' ∧ Descends m p r := by
  rw [ladder, Automaton.moves_ofParts]
  simp only [Climbs, Descends, List.mem_append, List.mem_cons, List.mem_map, List.mem_range,
    List.length_map, List.length_range, Transition.mk.injEq]
  constructor
  · intro h
    obtain ⟨(⟨rfl, rfl, rfl⟩ | ⟨k, hk, rfl, rfl, rfl⟩) | ⟨k, hk, rfl, rfl, rfl⟩, hp, hr⟩ := h
    · exact Or.inl ⟨rfl, Or.inl ⟨rfl, rfl⟩⟩
    · exact Or.inl ⟨rfl, Or.inr ⟨by omega, by omega, rfl⟩⟩
    · exact Or.inr ⟨rfl, by omega, by omega, rfl⟩
  · intro h
    obtain ⟨rfl, ⟨rfl, rfl⟩ | ⟨hp, hpm, rfl⟩⟩ | ⟨rfl, hr, hrm, rfl⟩ := h
    · exact ⟨Or.inl (Or.inl ⟨rfl, rfl, rfl⟩), by omega, by omega⟩
    · exact ⟨Or.inl (Or.inr ⟨p - 1, by omega, by omega, rfl, by omega⟩), by omega, by omega⟩
    · exact ⟨Or.inr ⟨r - 1, by omega, by omega, rfl, by omega⟩, by omega, by omega⟩

theorem normal (m : Nat) : (ladder m).Normal 0 (m + 2) where
  isInitial_iff p := by
    rw [ladder, Automaton.isInitial_ofParts, Automaton.any_map_range, beq_iff_eq]
    omega
  isTerminal_iff p := by
    rw [ladder, Automaton.isTerminal_ofParts, Automaton.any_map_range, beq_iff_eq]
    omega
  ne := by omega
  not_entered p l h := by
    rcases moves_iff.mp h with ⟨-, h⟩ | ⟨-, h⟩
    · omega
    · omega
  not_left l q h := by
    rcases moves_iff.mp h with ⟨-, h⟩ | ⟨-, h⟩
    · omega
    · omega

/-- What the moves of a ladder read. -/
def rung (m p r : Nat) : Expression Char :=
  if Climbs m p r then .letter 'a' else if Descends m p r then .letter 'b' else .zero

theorem rung_of_climbs (h : Climbs m p r) : rung m p r = .letter 'a' :=
  if_pos h

theorem rung_of_descends (h : Descends m p r) : rung m p r = .letter 'b' := by
  have hclimb : ¬ Climbs m p r := by omega
  rw [rung, if_neg hclimb, if_pos h]

theorem rung_eq_zero (hclimb : ¬ Climbs m p r) (hdescend : ¬ Descends m p r) :
    rung m p r = .zero := by
  rw [rung, if_neg hclimb, if_neg hdescend]

theorem entry_ofAutomaton (m p r : Nat) :
    (EdgeTable.ofAutomaton (ladder m)).entry p r = rung m p r := by
  by_cases hclimb : Climbs m p r
  · have hdescend : ¬ Descends m p r := by omega
    rw [rung_of_climbs hclimb]
    refine EdgeTable.entry_ofAutomaton_of_moves_iff (l := some 'a') fun l => ?_
    rw [moves_iff]
    tauto
  · by_cases hdescend : Descends m p r
    · rw [rung_of_descends hdescend]
      refine EdgeTable.entry_ofAutomaton_of_moves_iff (l := some 'b') fun l => ?_
      rw [moves_iff]
      tauto
    · rw [rung_eq_zero hclimb hdescend]
      refine EdgeTable.entry_ofAutomaton_of_not_moves fun l => ?_
      rw [moves_iff]
      tauto

end Moves

section Elimination

/-- The expression of the loop on the state behind `k` eliminated ones. -/
def loop : Nat → Expression Char
  | 0 => .zero
  | 1 => .product (.letter 'b') (.letter 'a')
  | k + 2 => .product (.product (.letter 'b') (.iteration (loop (k + 1)))) (.letter 'a')

/-- Every loop goes one state down, loops there and comes back. -/
theorem loop_succ (k : Nat) :
    loop (k + 1) = ((Expression.letter 'b').mul (loop k).star).mul (.letter 'a') := by
  cases k with
  | zero => rfl
  | succ k =>
      cases k with
      | zero => rfl
      | succ k => rfl

/-- What eliminating the states from `1` to `k` leaves: it only changes the loop on the lowest state
that is left. -/
structure Climbed (m k : Nat) (table : EdgeTable Char) : Prop where
  square : table.Square (ladder m).size
  entry_eq : ∀ p r, (p = 0 ∨ k < p) → (r = 0 ∨ k < r) →
    table.entry p r = if p = k + 1 ∧ r = k + 1 then loop k else rung m p r

theorem climbed_zero (m : Nat) : Climbed m 0 (EdgeTable.ofAutomaton (ladder m)) := by
  refine ⟨EdgeTable.square_ofAutomaton (ladder m), fun p r _ _ => ?_⟩
  rw [entry_ofAutomaton]
  split
  · exact rung_eq_zero (by omega) (by omega)
  · rfl

theorem Climbed.entry_eliminate (h : Climbed m k table) (hp : p = 0 ∨ k + 1 < p)
    (hr : r = 0 ∨ k + 1 < r) :
    (table.eliminate (k + 1)).entry p r =
      (rung m p r).add (((rung m p (k + 1)).mul (loop k).star).mul (rung m (k + 1) r)) := by
  rw [EdgeTable.entry_eliminate h.square (by omega) (by omega),
    h.entry_eq p r (by omega) (by omega), if_neg (by omega),
    h.entry_eq p (k + 1) (by omega) (by omega), if_neg (by omega),
    h.entry_eq (k + 1) (k + 1) (by omega) (by omega), if_pos ⟨rfl, rfl⟩,
    h.entry_eq (k + 1) r (by omega) (by omega), if_neg (by omega)]

theorem Climbed.eliminate (h : Climbed m k table) (hk : k < m) :
    Climbed m (k + 1) (table.eliminate (k + 1)) := by
  refine ⟨h.square.eliminate (k + 1), fun p r hp hr => ?_⟩
  rw [h.entry_eliminate hp hr]
  split
  · rename_i hloop
    obtain ⟨rfl, rfl⟩ := hloop
    rw [rung_eq_zero (p := k + 2) (r := k + 2) (by omega) (by omega), Expression.zero_add,
      rung_of_descends (by omega), rung_of_climbs (by omega), loop_succ]
  · -- the lowest state is entered from and left to the next one only
    have haround : ((rung m p (k + 1)).mul (loop k).star).mul (rung m (k + 1) r) = .zero := by
      by_cases hpk : p = k + 2
      · rw [rung_eq_zero (p := k + 1) (r := r) (by omega) (by omega), Expression.mul_zero]
      · rw [rung_eq_zero (p := p) (by omega) (by omega), Expression.zero_mul, Expression.zero_mul]
    rw [haround, Expression.add_zero]

theorem climbed_foldl (hk : k ≤ m) :
    Climbed m k
      ((List.range' 1 k).foldl EdgeTable.eliminate (EdgeTable.ofAutomaton (ladder m))) := by
  induction k with
  | zero => exact climbed_zero m
  | succ k ih =>
      have hinner := (ih (by omega)).eliminate (by omega)
      rw [List.range'_1_concat, List.foldl_append, Nat.add_comm 1 k]
      exact hinner

/-- Between the first and the last state of a ladder, the states are eliminated from the bottom. -/
theorem inner_eq (m : Nat) :
    (ladder m).states.filter (fun q => q != 0 && q != m + 2) = List.range' 1 (m + 1) := by
  have hsize : (ladder m).size = m + 3 := by simp [ladder]
  have hstates : (ladder m).states = 0 :: (List.range' 1 (m + 1) ++ [m + 2]) := by
    rw [Automaton.states, hsize, List.range_eq_range', List.range'_succ, List.range'_1_concat,
      Nat.add_comm 1 (m + 1)]
  have hinner : ∀ q ∈ List.range' 1 (m + 1), (q != 0 && q != m + 2) = true := by
    intro q hq
    have hq := List.mem_range'_1.mp hq
    simp only [Bool.and_eq_true, bne_iff_ne]
    omega
  rw [hstates, List.filter_cons_of_neg (by simp), List.filter_append,
    List.filter_eq_self.mpr hinner, List.filter_cons_of_neg (by simp), List.filter_nil,
    List.append_nil]

/-- The expression of a ladder enters the loops at the top. -/
def expression (m : Nat) : Expression Char :=
  ((Expression.letter 'a').mul (loop m).star).mul (.letter 'a')

theorem expression_eq (m : Nat) : (ladder m).expression = .ok (expression m) := by
  rw [Automaton.expression, Automaton.endpoints_eq_ok_iff.mpr (normal m)]
  simp only [inner_eq]
  rw [List.range'_1_concat, List.foldl_append, Nat.add_comm 1 m, List.foldl_cons, List.foldl_nil,
    (climbed_foldl (Nat.le_refl m)).entry_eliminate (by omega) (by omega),
    rung_eq_zero (p := 0) (r := m + 2) (by omega) (by omega), Expression.zero_add,
    rung_of_climbs (by omega), rung_of_climbs (by omega), expression]

end Elimination

section Nesting

open Expression

/-- The parentheses in the text of an expression. -/
def parensOf (e : Expression Char) : List Paren :=
  e.text.toList.filterMap Paren.ofChar?

/-- A product that is repeated between two letters is put into parentheses. -/
theorem parensOf_around {x y : Char} (hx : Paren.ofChar? x = none) (hy : Paren.ofChar? y = none)
    (e f : Expression Char) :
    parensOf (.product (.product (.letter x) (.iteration (.product e f))) (.letter y)) =
      .opening :: (parensOf (.product e f) ++ [.closing]) := by
  have hshown (c : Char) : (shown c).toList = [c] := String.toList_singleton c
  have hopening : Paren.ofChar? '(' = some .opening := rfl
  have hclosing : Paren.ofChar? ')' = some .closing := rfl
  have hstar : Paren.ofChar? '*' = none := rfl
  simp [parensOf, text, textAt, enclose, Strength.level, hshown, hx, hy, hopening, hclosing,
    hstar]

theorem exists_loop_eq_product (k : Nat) : ∃ e f, loop (k + 1) = .product e f := by
  cases k with
  | zero => exact ⟨_, _, rfl⟩
  | succ k => exact ⟨_, _, rfl⟩

theorem deepest_loop (depth k : Nat) :
    Paren.deepest depth (parensOf (loop (k + 1))) = depth + k := by
  induction k generalizing depth with
  | zero => rfl
  | succ k ih =>
      obtain ⟨e, f, hloop⟩ := exists_loop_eq_product k
      rw [loop, hloop, parensOf_around rfl rfl, Paren.deepest_pair, ← hloop, ih]
      omega

/-- The text of a ladder has one level of parentheses for every way back. -/
theorem nesting_text (m : Nat) : Text.nesting (expression m).text = m := by
  cases m with
  | zero => rfl
  | succ m =>
      obtain ⟨e, f, hloop⟩ := exists_loop_eq_product m
      have hdeepest : Paren.deepest 0 (parensOf (expression (m + 1))) = m + 1 := by
        have hexpression : expression (m + 1) =
            .product (.product (.letter 'a') (.iteration (.product e f))) (.letter 'a') := by
          rw [expression, hloop]
          rfl
        rw [hexpression, parensOf_around rfl rfl, Paren.deepest_pair, ← hloop, deepest_loop]
        omega
      exact hdeepest

/-- For every depth there is an automaton whose text nests parentheses that deeply. -/
theorem exists_spelling (m : Nat) :
    ∃ text, (ladder m).spelling = .ok text ∧ Text.nesting text = m := by
  refine ⟨(expression m).text, ?_, nesting_text m⟩
  refine Automaton.spelling_eq_ok_iff.mpr ⟨_, expression_eq m, rfl, fun l hl => ?_⟩
  have halphabet := Automaton.mem_alphabet_of_mem_letters (expression_eq m) l hl
  obtain ⟨p, q, hmove⟩ := Automaton.mem_alphabet.mp halphabet
  rcases moves_iff.mp hmove with ⟨hl, -⟩ | ⟨hl, -⟩
  · cases hl
    decide
  · cases hl
    decide

end Nesting

end Ladder

section Reading

universe u

variable {L : Type u} [Label L] {A : Automaton L} {text : String}

theorem parse_spelling_of_deep (h : A.spelling = .ok text)
    (hnesting : maxNesting < Text.nesting text) :
    parse text = .error (.unexpected 1 "'('" .shallower) := by
  obtain ⟨e, he, rfl, hletters⟩ := Automaton.spelling_eq_ok_iff.mp h
  exact (Expression.parse_text hletters
    (Automaton.simplified_of_expression_eq he).numbersInFront).2 hnesting

/-- The text of an automaton is read if and only if its parentheses are not nested too deeply, and
otherwise a parenthesis is blamed. -/
theorem spelling_is_readable_iff (A : Automaton L) (text : String) (h : A.spelling = .ok text) :
    ((∃ B, parse text = .ok B) ↔ Text.nesting text ≤ maxNesting) ∧
      (maxNesting < Text.nesting text → parse text = .error (.unexpected 1 "'('" .shallower)) := by
  refine ⟨⟨fun hread => ?_, fun hnesting => ?_⟩, parse_spelling_of_deep h⟩
  · by_contra hnesting
    obtain ⟨B, hB⟩ := hread
    rw [parse_spelling_of_deep h (Nat.lt_of_not_le hnesting)] at hB
    cases hB
  · obtain ⟨e, he, rfl, hletters⟩ := Automaton.spelling_eq_ok_iff.mp h
    obtain ⟨B, hB, -⟩ := (Expression.parse_text hletters
      (Automaton.simplified_of_expression_eq he).numbersInFront).1 hnesting
    exact ⟨B, hB⟩

/-- The text of a ladder with three ways back is read. -/
theorem spelling_of_ladder_is_readable :
    (ladder 3).spelling = .ok "a(b(b(ba)*a)*a)*a" ∧
      ((∃ B, parse "a(b(b(ba)*a)*a)*a" = .ok B) ↔
        Text.nesting "a(b(b(ba)*a)*a)*a" ≤ maxNesting) ∧
      (maxNesting < Text.nesting "a(b(b(ba)*a)*a)*a" →
        parse "a(b(b(ba)*a)*a)*a" = .error (.unexpected 1 "'('" .shallower)) := by
  have hspelling : (ladder 3).spelling = .ok "a(b(b(ba)*a)*a)*a" := rfl
  exact ⟨hspelling, spelling_is_readable_iff (ladder 3) _ hspelling⟩

/-- A ladder with more ways back than parentheses can be nested has a text that is not read. -/
theorem spelling_of_deep_ladder_is_not_readable :
    ∃ text, (ladder 101).spelling = .ok text ∧
      parse text = .error (.unexpected 1 "'('" .shallower) := by
  obtain ⟨text, hspelling, hnesting⟩ := Ladder.exists_spelling 101
  have hdeep : maxNesting < Text.nesting text := by
    rw [hnesting]
    decide
  exact ⟨text, hspelling, parse_spelling_of_deep hspelling hdeep⟩

end Reading

end FiniteState
