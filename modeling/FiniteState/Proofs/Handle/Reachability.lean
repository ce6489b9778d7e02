import FiniteState.Proofs.Automaton.Useful
import FiniteState.Proofs.Handle.Basic
import Mathlib.Logic.Relation
/-!
Reachability in terms of single transitions.  Runs that read nothing are chains of silent
transitions, and runs over any word are chains of transitions; so the closure of some handles and
the accessible and co-accessible states are what such chains lead to, and nothing else.
-/

namespace FiniteState

universe u

variable {L : Type u} [Label L]

namespace Automaton

variable {A : Automaton L} {p q : Nat}

/-- A transition leads from one state to the other, whatever it reads. -/
def Leads (A : Automaton L) (p q : Nat) : Prop :=
  ∃ l, A.Moves p l q

/-- A transition that reads nothing leads from one state to the other. -/
def LeadsSilently (A : Automaton L) (p q : Nat) : Prop :=
  A.Moves p none q

theorem run_nil_iff : Run A.Moves p [] q ↔ Relation.ReflTransGen A.LeadsSilently p q := by
  constructor
  · intro hrun
    exact hrun.preserves_silently (fun _ _ hchain hmove => hchain.tail hmove) .refl
  · intro hchain
    induction hchain with
    | refl => exact Run.done p
    | tail _ hmove ih => exact ih.append (Run.single hmove)

theorem exists_run_iff : (∃ w, Run A.Moves p w q) ↔ Relation.ReflTransGen A.Leads p q := by
  constructor
  · rintro ⟨w, hrun⟩
    exact hrun.preserves (fun _ l _ hchain hmove => hchain.tail ⟨l, hmove⟩) .refl
  · intro hchain
    induction hchain with
    | refl => exact ⟨[], Run.done p⟩
    | tail _ hmove ih =>
        obtain ⟨w, hrun⟩ := ih
        obtain ⟨l, hmove⟩ := hmove
        exact ⟨w ++ l.toList, hrun.append (Run.single hmove)⟩

theorem mem_accessible_iff_leads :
    p ∈ A.accessible ↔ ∃ i, A.isInitial i = true ∧ Relation.ReflTransGen A.Leads i p := by
  rw [mem_accessible]
  apply exists_congr
  intro i
  rw [exists_and_left, exists_run_iff]

/-- The search from the terminal states follows the transitions backwards, but what it finds are the
states from which they can be followed forwards to a terminal one. -/
theorem mem_coAccessible_iff_leads :
    p ∈ A.coAccessible ↔ ∃ t, A.isTerminal t = true ∧ Relation.ReflTransGen A.Leads p t := by
  rw [mem_coAccessible]
  constructor
  · rintro ⟨w, t, hrun, ht⟩
    exact ⟨t, ht, exists_run_iff.mp ⟨w, hrun⟩⟩
  · rintro ⟨t, ht, hchain⟩
    obtain ⟨w, hrun⟩ := exists_run_iff.mpr hchain
    exact ⟨w, t, hrun, ht⟩

end Automaton

namespace Tagged

variable {T : Tagged L} {handles : List Handle} {h : Handle}

/-- The closure of some handles starts from the states that the handles of the automaton name. -/
theorem mem_closure :
    h ∈ T.closure handles ↔ ∃ h' ∈ handles, T.contains h' = true ∧
      ∃ p, Relation.ReflTransGen T.automaton.LeadsSilently h'.index p ∧ T.give p = h := by
  rw [closure, OrderedSet.mem_image]
  simp only [Automaton.mem_closure, mem_own, Automaton.run_nil_iff]
  constructor
  · rintro ⟨p, ⟨_, ⟨h', hmem, hown, rfl⟩, -, hchain⟩, hgive⟩
    exact ⟨h', hmem, hown, p, hchain, hgive⟩
  · rintro ⟨h', hmem, hown, p, hchain, hgive⟩
    exact ⟨p, ⟨h'.index, ⟨h', hmem, hown, rfl⟩, (contains_iff.mp hown).2, hchain⟩, hgive⟩

end Tagged

/-- Closure and reachability are exact.  The closure of some handles are the states that silent
transitions lead to from the states that the handles name, where foreign handles name none;
accessible is what transitions lead to from an initial state, and co-accessible is from where they
lead to a terminal one. -/
theorem closure_and_reachability_are_exact (T : Tagged L) (handles : List Handle) :
    (∀ h, h ∈ T.closure handles ↔ ∃ h' ∈ handles, T.contains h' = true ∧
      ∃ p, Relation.ReflTransGen T.automaton.LeadsSilently h'.index p ∧ T.give p = h) ∧
    (∀ p, p ∈ T.automaton.accessible ↔
      ∃ i, T.automaton.isInitial i = true ∧ Relation.ReflTransGen T.automaton.Leads i p) ∧
    (∀ p, p ∈ T.automaton.coAccessible ↔
      ∃ t, T.automaton.isTerminal t = true ∧ Relation.ReflTransGen T.automaton.Leads p t) :=
  ⟨fun _ => Tagged.mem_closure, fun _ => Automaton.mem_accessible_iff_leads,
    fun _ => Automaton.mem_coAccessible_iff_leads⟩

end FiniteState
