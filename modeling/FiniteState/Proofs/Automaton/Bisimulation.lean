import FiniteState.Proofs.Automaton.Moves
/-!
Strong bisimulation between the states of two automata: related states agree on being terminal,
and every move of one of them, silent ones included, is answered by an equal move of the other
into related states.  Simulation asks for this in one direction only.
-/

namespace FiniteState

universe u

variable {L : Type u} [Label L]

/-- Related states answer each other's moves, and terminal states are related to terminal ones
only. -/
structure IsBisimulation (A B : Automaton L) (related : Nat → Nat → Prop) : Prop where
  terminal_eq : ∀ p q, related p q → A.isTerminal p = B.isTerminal q
  forth : ∀ p q l p', related p q → A.Moves p l p' → ∃ q', B.Moves q l q' ∧ related p' q'
  back : ∀ p q l q', related p q → B.Moves q l q' → ∃ p', A.Moves p l p' ∧ related p' q'

/-- Some bisimulation relates the states. -/
def Bisimilar (A B : Automaton L) (p q : Nat) : Prop :=
  ∃ related, IsBisimulation A B related ∧ related p q

/-- Moves are answered by related states, and terminal states are related to terminal ones only, but
the state on the right may do more. -/
structure IsSimulation (A B : Automaton L) (related : Nat → Nat → Prop) : Prop where
  terminal : ∀ p q, related p q → A.isTerminal p = true → B.isTerminal q = true
  forth : ∀ p q l p', related p q → A.Moves p l p' → ∃ q', B.Moves q l q' ∧ related p' q'

def SimulatedBy (A B : Automaton L) (p q : Nat) : Prop :=
  ∃ related, IsSimulation A B related ∧ related p q

/-- Every initial state of `A` is related to an initial state of `B`. -/
def InitialsAnswered (A B : Automaton L) (related : Nat → Nat → Prop) : Prop :=
  ∀ p, A.isInitial p = true → ∃ q, B.isInitial q = true ∧ related p q

theorem InitialsAnswered.mono {A B : Automaton L} {related related' : Nat → Nat → Prop}
    (h : InitialsAnswered A B related) (hle : ∀ p q, related p q → related' p q) :
    InitialsAnswered A B related' := by
  intro p hp
  obtain ⟨q, hq, hpq⟩ := h p hp
  exact ⟨q, hq, hle p q hpq⟩

section Parts

variable {A B : Automaton L} {related : Nat → Nat → Prop}

protected theorem IsBisimulation.symm (h : IsBisimulation A B related) :
    IsBisimulation B A fun q p => related p q := by
  constructor
  · intro q p hpq
    exact (h.terminal_eq p q hpq).symm
  · intro q p l q' hpq hmove
    exact h.back p q l q' hpq hmove
  · intro q p l p' hpq hmove
    exact h.forth p q l p' hpq hmove

/-- A bisimulation is a simulation, and so is its converse. -/
theorem IsBisimulation.isSimulation (h : IsBisimulation A B related) :
    IsSimulation A B related := by
  constructor
  · intro p q hpq hp
    rwa [← h.terminal_eq p q hpq]
  · intro p q l p' hpq hmove
    exact h.forth p q l p' hpq hmove

end Parts

namespace Bisimilar

variable {A B C : Automaton L} {p q r : Nat}

protected theorem refl (A : Automaton L) (p : Nat) : Bisimilar A A p p := by
  refine ⟨Eq, ⟨?_, ?_, ?_⟩, rfl⟩
  · rintro p _ rfl
    rfl
  · rintro p _ l p' rfl hmove
    exact ⟨p', hmove, rfl⟩
  · rintro p _ l q' rfl hmove
    exact ⟨q', hmove, rfl⟩

protected theorem symm (h : Bisimilar A B p q) : Bisimilar B A q p := by
  obtain ⟨related, hrelated, hpq⟩ := h
  exact ⟨fun q p => related p q, hrelated.symm, hpq⟩

protected theorem trans (h : Bisimilar A B p q) (h' : Bisimilar B C q r) : Bisimilar A C p r := by
  obtain ⟨first, hfirst, hpq⟩ := h
  obtain ⟨second, hsecond, hqr⟩ := h'
  refine ⟨fun p r => ∃ q, first p q ∧ second q r, ⟨?_, ?_, ?_⟩, q, hpq, hqr⟩
  · rintro p r ⟨q, hpq, hqr⟩
    exact (hfirst.terminal_eq p q hpq).trans (hsecond.terminal_eq q r hqr)
  · rintro p r l p' ⟨q, hpq, hqr⟩ hmove
    obtain ⟨q', hmove', hpq'⟩ := hfirst.forth p q l p' hpq hmove
    obtain ⟨r', hmove'', hqr'⟩ := hsecond.forth q r l q' hqr hmove'
    exact ⟨r', hmove'', q', hpq', hqr'⟩
  · rintro p r l r' ⟨q, hpq, hqr⟩ hmove
    obtain ⟨q', hmove', hqr'⟩ := hsecond.back q r l r' hqr hmove
    obtain ⟨p', hmove'', hpq'⟩ := hfirst.back p q l q' hpq hmove'
    exact ⟨p', hmove'', q', hpq', hqr'⟩

/-- Bisimilarity is itself a bisimulation, the largest one. -/
theorem isBisimulation (A B : Automaton L) : IsBisimulation A B (Bisimilar A B) := by
  refine ⟨?_, ?_, ?_⟩
  · rintro p q ⟨related, hrelated, hpq⟩
    exact hrelated.terminal_eq p q hpq
  · rintro p q l p' ⟨related, hrelated, hpq⟩ hmove
    obtain ⟨q', hmove', hpq'⟩ := hrelated.forth p q l p' hpq hmove
    exact ⟨q', hmove', related, hrelated, hpq'⟩
  · rintro p q l q' ⟨related, hrelated, hpq⟩ hmove
    obtain ⟨p', hmove', hpq'⟩ := hrelated.back p q l q' hpq hmove
    exact ⟨p', hmove', related, hrelated, hpq'⟩

end Bisimilar

end FiniteState
