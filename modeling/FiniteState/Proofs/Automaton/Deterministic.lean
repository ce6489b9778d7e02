import FiniteState.Proofs.Automaton.Useful
import FiniteState.Proofs.FirstOccurrence
import Mathlib.Computability.MyhillNerode
/-!
Deterministic automata.  What a state accepts after a label is a left quotient of what it accepts,
so the states that words lead to stand for the left quotients of the language.
-/

namespace FiniteState

universe u

variable {L : Type u} [Label L]

theorem OrderedSet.size_le_one_iff {α : Type u} [Ordered α] {s : OrderedSet α} :
    s.size ≤ 1 ↔ ∀ a ∈ s, ∀ b ∈ s, a = b := by
  have hnodup := s.toList_nodup
  simp only [← mem_toList]
  rw [size]
  generalize s.toList = members at *
  constructor
  · intro hlength a ha b hb
    rcases members with _ | ⟨c, _ | ⟨d, rest⟩⟩
    · exact absurd ha List.not_mem_nil
    · rw [List.mem_singleton.mp ha, List.mem_singleton.mp hb]
    · exact absurd (Nat.le_of_succ_le_succ hlength) (Nat.not_succ_le_zero _)
  · intro hunique
    rcases members with _ | ⟨c, _ | ⟨d, rest⟩⟩
    · exact Nat.zero_le 1
    · exact Nat.le_refl 1
    · have hcd : c = d := hunique c (by simp) d (by simp)
      simp [hcd] at hnodup

namespace Automaton

variable {A : Automaton L} {p q i : Nat} {l : L} {v w : List L}

section SilentFree

theorem nil_mem_languageFrom (hfree : ∀ p q, ¬ A.Moves p none q) :
    [] ∈ A.languageFrom p ↔ A.isTerminal p = true := by
  constructor
  · intro h
    rcases h with ⟨q, hrun, hq⟩
    cases hrun with
    | done _ => exact hq
    | silent hmove _ => exact absurd hmove (hfree _ _)
  · exact fun hp => ⟨p, Run.done p, hp⟩

theorem cons_mem_languageFrom (hfree : ∀ p q, ¬ A.Moves p none q) :
    l :: w ∈ A.languageFrom p ↔ ∃ q, A.Moves p (some l) q ∧ w ∈ A.languageFrom q := by
  constructor
  · intro h
    rcases h with ⟨r, hrun, hr⟩
    cases hrun with
    | silent hmove _ => exact absurd hmove (hfree _ _)
    | read hmove hrest => exact ⟨_, hmove, r, hrest, hr⟩
  · intro h
    rcases h with ⟨q, hmove, r, hrest, hr⟩
    exact ⟨r, Run.read hmove hrest, hr⟩

end SilentFree

/-- At most one state is initial, and a word can be read in one way only. -/
structure Deterministic (A : Automaton L) : Prop where
  initial_unique : ∀ p q, A.isInitial p = true → A.isInitial q = true → p = q
  not_silent : ∀ p q, ¬ A.Moves p none q
  functional : ∀ p l q q', A.Moves p l q → A.Moves p l q' → q = q'

/-- As every transition stands in an entry, what the entries hold shows whether words can be read in
different ways. -/
theorem entries_size_le_one_iff :
    (∀ e ∈ (A.arena.outgoingAt p).entries, e.2.size ≤ 1) ↔
      ∀ l q q', A.Moves p l q → A.Moves p l q' → q = q' := by
  simp only [moves_iff_mem_statesAt, OrderedSet.size_le_one_iff]
  constructor
  · intro h l q q' hq hq'
    obtain ⟨e, he, rfl, hmem⟩ := Adjacency.mem_statesAt.mp hq
    rw [Adjacency.statesAt_of_mem he] at hq'
    exact h e he q hmem q' hq'
  · intro h e he q hq q' hq'
    rw [← Adjacency.statesAt_of_mem he] at hq hq'
    exact h e.1 q q' hq hq'

/-- The test for determinism is exact. -/
theorem isDeterministic_iff : A.isDeterministic = true ↔ A.Deterministic := by
  rw [isDeterministic, Bool.and_eq_true, Bool.and_eq_true, decide_eq_true_eq, isEpsilonFree_iff,
    OrderedSet.size_le_one_iff, List.all_eq_true]
  simp only [mem_initials, mem_arena_outgoing, List.all_eq_true, decide_eq_true_eq]
  constructor
  · intro h
    rcases h with ⟨⟨hinitial, hfree⟩, hsingle⟩
    refine ⟨fun p q hp hq => hinitial p hp q hq, hfree, fun p l q q' hq => ?_⟩
    exact entries_size_le_one_iff.mp (hsingle _ ⟨p, hq.start_lt, rfl⟩) l q q' hq
  · intro h
    rcases h with ⟨hinitial, hfree, hfunctional⟩
    refine ⟨⟨fun p hp q hq => hinitial p q hp hq, hfree⟩, ?_⟩
    rintro _ ⟨p, -, rfl⟩
    exact entries_size_le_one_iff.mpr (hfunctional p)

namespace Deterministic

theorem isEpsilonFree (h : A.Deterministic) : A.isEpsilonFree = true :=
  isEpsilonFree_iff.mpr h.not_silent

theorem isInitial_iff (h : A.Deterministic) (hi : A.isInitial i = true) :
    A.isInitial p = true ↔ p = i :=
  ⟨fun hp => h.initial_unique p i hp hi, fun hp => hp ▸ hi⟩

theorem toList_initials (h : A.Deterministic) (hi : A.isInitial i = true) :
    A.initials.toList = [i] :=
  OrderedSet.toList_eq_singleton_iff.mpr fun _ => mem_initials.trans (h.isInitial_iff hi)

theorem leftQuotient_eq (h : A.Deterministic) (hmove : A.Moves p (some l) q) :
    (A.languageFrom p).leftQuotient [l] = A.languageFrom q := by
  ext w
  change l :: w ∈ A.languageFrom p ↔ w ∈ A.languageFrom q
  rw [cons_mem_languageFrom h.not_silent]
  constructor
  · intro h
    rcases h with ⟨q', hmove', hw⟩
    rwa [h.functional p (some l) q q' hmove hmove']
  · exact fun hw => ⟨q, hmove, hw⟩

/-- The state that a word leads to accepts the left quotient by the word. -/
theorem leftQuotient_run_eq (h : A.Deterministic) (hrun : Run A.Moves p v q) :
    (A.languageFrom p).leftQuotient v = A.languageFrom q := by
  induction hrun with
  | done _ => rfl
  | silent hmove _ _ => exact absurd hmove (h.not_silent _ _)
  | @read a b _ l w hmove _ ih =>
      rw [← List.singleton_append, Language.leftQuotient_append, h.leftQuotient_eq hmove, ih]

theorem language_eq (h : A.Deterministic) (hi : A.isInitial i = true) :
    A.language = A.languageFrom i := by
  ext w
  constructor
  · intro h
    rcases h with ⟨p, hp, hw⟩
    rwa [h.initial_unique i p hi hp]
  · exact fun hw => ⟨i, hi, hw⟩

/-- A useful state accepts what may follow a word that leads to it. -/
theorem exists_leftQuotient_eq (h : A.Deterministic) (hp : p ∈ A.accessible) :
    ∃ v, A.language.leftQuotient v = A.languageFrom p := by
  obtain ⟨i, v, hi, hrun⟩ := mem_accessible.mp hp
  rw [h.language_eq hi]
  exact ⟨v, h.leftQuotient_run_eq hrun⟩

/-- Whatever may follow a word is accepted by some state, if it is anything at all. -/
theorem exists_languageFrom_eq (h : A.Deterministic) (hw : w ∈ A.language.leftQuotient v) :
    ∃ p < A.size, A.languageFrom p = A.language.leftQuotient v := by
  obtain ⟨i, hi, q, hrun, hq⟩ := hw
  obtain ⟨p, hfirst, -⟩ := hrun.exists_of_append
  refine ⟨p, run_lt_size hfirst (lt_size_of_isInitial hi), ?_⟩
  rw [h.language_eq hi, h.leftQuotient_run_eq hfirst]

end Deterministic

end Automaton

end FiniteState
