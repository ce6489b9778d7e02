import FiniteState.Proofs.Automaton.Language
import Mathlib.Data.List.ReduceOption
/-!
Acceptance by single walks.  A walk follows one transition after the other, and what it spells is
what is left of its labels when the silent ones are deleted.  The sets of states that are computed
while a word is read hold the ends of all walks that spell what was read so far, so a word is
accepted exactly if some walk from an initial to a terminal state spells it.
-/

namespace FiniteState

universe u

variable {L : Type u} [Label L]

namespace Automaton

variable {A : Automaton L} {p q : Nat} {w : List L}

/-- The transitions lead from one state to another one, each starting where the last one ended. -/
inductive Walk (A : Automaton L) : Nat → List (Transition L) → Nat → Prop where
  | stay (p : Nat) : Walk A p [] p
  | go {t : Transition L} {rest : List (Transition L)} {q : Nat} :
      t ∈ A.transitions → Walk A t.target rest q → Walk A t.start (t :: rest) q

/-- What transitions read one after the other. -/
def spelled (transitions : List (Transition L)) : List L :=
  (transitions.map Transition.label).reduceOption

omit [Label L] in
theorem spelled_cons (t : Transition L) (rest : List (Transition L)) :
    spelled (t :: rest) = t.label.toList ++ spelled rest := by
  unfold spelled
  rw [List.map_cons]
  cases t.label with
  | none => rw [List.reduceOption_cons_of_none, Option.toList_none, List.nil_append]
  | some l => rw [List.reduceOption_cons_of_some, Option.toList_some, List.singleton_append]

/-- A walk is a run over the word that it spells. -/
theorem Walk.run {transitions : List (Transition L)} (h : A.Walk p transitions q) :
    Run A.Moves p (spelled transitions) q := by
  induction h with
  | stay p => exact Run.done p
  | go ht _ ih =>
      rw [spelled_cons]
      exact Run.step (mem_transitions.mp ht) ih

theorem run_iff_exists_walk :
    Run A.Moves p w q ↔ ∃ transitions, A.Walk p transitions q ∧ spelled transitions = w := by
  constructor
  · intro hrun
    induction hrun using Run.inductionOnMoves with
    | done p => exact ⟨[], Walk.stay p, rfl⟩
    | step p r q l w hmove _ ih =>
        obtain ⟨rest, hwalk, rfl⟩ := ih
        have ht : (⟨p, l, r⟩ : Transition L) ∈ A.transitions := mem_transitions.mpr hmove
        exact ⟨⟨p, l, r⟩ :: rest, Walk.go ht hwalk, spelled_cons _ rest⟩
  · rintro ⟨transitions, hwalk, rfl⟩
    exact hwalk.run

/-- A word is accepted exactly if some walk from an initial to a terminal state spells it. -/
theorem accepts_iff_exists_walk (A : Automaton L) (w : List L) :
    A.accepts w = true ↔
      ∃ p ∈ A.initials, ∃ q ∈ A.terminals, ∃ transitions,
        A.Walk p transitions q ∧ spelled transitions = w := by
  rw [accepts_iff_mem_language]
  constructor
  · rintro ⟨p, hp, q, hrun, hq⟩
    exact ⟨p, mem_initials.mpr hp, q, mem_terminals.mpr hq, run_iff_exists_walk.mp hrun⟩
  · rintro ⟨p, hp, q, hq, hwalk⟩
    exact ⟨p, mem_initials.mp hp, q, run_iff_exists_walk.mpr hwalk, mem_terminals.mp hq⟩

end Automaton

end FiniteState
