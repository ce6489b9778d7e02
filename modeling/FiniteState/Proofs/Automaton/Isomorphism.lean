import FiniteState.Proofs.Automaton.Bisimulation
import FiniteState.Proofs.Automaton.Useful
import Mathlib.Logic.Equiv.Basic
/-!
When bisimilar automata are the same up to the numbers of their states.  In an automaton without
two bisimilar states a state is known by what is bisimilar to it, so between two such automata
bisimilarity is a bijection as soon as every state can be reached.
-/

namespace FiniteState

universe u

variable {L : Type u} [Label L]

/-- Every initial state of the one automaton is bisimilar to an initial state of the other one. -/
structure BisimilarInitials (A B : Automaton L) : Prop where
  forth : ∀ p, A.isInitial p = true → ∃ q, B.isInitial q = true ∧ Bisimilar A B p q
  back : ∀ q, B.isInitial q = true → ∃ p, A.isInitial p = true ∧ Bisimilar A B p q

/-- A renaming of the states that keeps flags and moves, silent ones included. -/
structure IsIsomorphism (A B : Automaton L) (f : Fin A.size ≃ Fin B.size) : Prop where
  initial_eq : ∀ p : Fin A.size, A.isInitial p = B.isInitial (f p)
  terminal_eq : ∀ p : Fin A.size, A.isTerminal p = B.isTerminal (f p)
  moves_iff : ∀ (p : Fin A.size) (l : Option L) (q : Fin A.size),
    A.Moves p l q ↔ B.Moves (f p) l (f q)

/-- The automata differ in the numbers and names of their states only. -/
def Isomorphic (A B : Automaton L) : Prop :=
  ∃ f, IsIsomorphism A B f

namespace Automaton

/-- Every state can be reached from an initial one. -/
def Accessible (A : Automaton L) : Prop :=
  ∀ p < A.size, p ∈ A.accessible

/-- No two states are bisimilar. -/
def Discerning (A : Automaton L) : Prop :=
  ∀ p < A.size, ∀ q < A.size, Bisimilar A A p q → p = q

end Automaton

variable {A B C : Automaton L} {p q : Nat}

namespace BisimilarInitials

protected theorem symm (h : BisimilarInitials A B) : BisimilarInitials B A := by
  constructor
  · intro q hq
    obtain ⟨p, hp, hpq⟩ := h.back q hq
    exact ⟨p, hp, hpq.symm⟩
  · intro p hp
    obtain ⟨q, hq, hpq⟩ := h.forth p hp
    exact ⟨q, hq, hpq.symm⟩

protected theorem trans (h : BisimilarInitials A B) (h' : BisimilarInitials B C) :
    BisimilarInitials A C := by
  constructor
  · intro p hp
    obtain ⟨q, hq, hpq⟩ := h.forth p hp
    obtain ⟨r, hr, hqr⟩ := h'.forth q hq
    exact ⟨r, hr, hpq.trans hqr⟩
  · intro r hr
    obtain ⟨q, hq, hqr⟩ := h'.back r hr
    obtain ⟨p, hp, hpq⟩ := h.back q hq
    exact ⟨p, hp, hpq.trans hqr⟩

/-- What can be reached from bisimilar initial states is bisimilar. -/
theorem exists_bisimilar (h : BisimilarInitials A B) (hA : A.Accessible) (hp : p < A.size) :
    ∃ q < B.size, Bisimilar A B p q := by
  obtain ⟨i, w, hi, hrun⟩ := Automaton.mem_accessible.mp (hA p hp)
  obtain ⟨j, hj, hij⟩ := h.forth i hi
  obtain ⟨q, hrun', hpq⟩ := hrun.simulate (Bisimilar A B)
    (fun p q l p' => (Bisimilar.isBisimulation A B).forth p q l p') hij
  exact ⟨q, Automaton.run_lt_size hrun' (Automaton.lt_size_of_isInitial hj), hpq⟩

end BisimilarInitials

section Correspondence

variable {f : Fin A.size ≃ Fin B.size}

theorem IsIsomorphism.bisimilar (h : IsIsomorphism A B f) (p : Fin A.size) :
    Bisimilar A B p (f p) := by
  refine ⟨fun p q => ∃ hp : p < A.size, (f ⟨p, hp⟩ : Nat) = q, ⟨?_, ?_, ?_⟩, p.2, rfl⟩
  · rintro p _ ⟨hp, rfl⟩
    exact h.terminal_eq ⟨p, hp⟩
  · rintro p _ l p' ⟨hp, rfl⟩ hmove
    exact ⟨_, (h.moves_iff ⟨p, hp⟩ l ⟨p', hmove.target_lt⟩).mp hmove, hmove.target_lt, rfl⟩
  · rintro p _ l q' ⟨hp, rfl⟩ hmove
    obtain ⟨p', hp'⟩ := f.surjective ⟨q', hmove.target_lt⟩
    have hq' : (f p' : Nat) = q' := congrArg Fin.val hp'
    exact ⟨p', (h.moves_iff ⟨p, hp⟩ l p').mpr (hq' ▸ hmove), p'.2, hq'⟩

/-- A bijection between bisimilar states keeps all moves, if the automata have no other bisimilar
states. -/
theorem isIsomorphism_of_bisimilar (h : BisimilarInitials A B) (hA : A.Discerning)
    (hB : B.Discerning) (hf : ∀ p : Fin A.size, Bisimilar A B p (f p)) : IsIsomorphism A B f := by
  have hright {p : Fin A.size} {q : Nat} (hq : q < B.size) (hpq : Bisimilar A B p q) : q = f p :=
    hB q hq (f p) (f p).2 (hpq.symm.trans (hf p))
  have hleft {p : Nat} {q : Fin A.size} (hp : p < A.size) (hpq : Bisimilar A B p (f q)) : p = q :=
    hA p hp q q.2 (hpq.trans (hf q).symm)
  have hbisim := Bisimilar.isBisimulation A B
  refine ⟨fun p => ?_, fun p => hbisim.terminal_eq p (f p) (hf p), fun p l q => ?_⟩
  · rw [Bool.eq_iff_iff]
    constructor
    · intro hp
      obtain ⟨q, hq, hpq⟩ := h.forth p hp
      rwa [hright (Automaton.lt_size_of_isInitial hq) hpq] at hq
    · intro hp
      obtain ⟨q, hq, hqp⟩ := h.back (f p) hp
      rwa [hleft (Automaton.lt_size_of_isInitial hq) hqp] at hq
  · constructor
    · intro hmove
      obtain ⟨q', hmove', hqq'⟩ := hbisim.forth p (f p) l q (hf p) hmove
      rwa [hright hmove'.target_lt hqq'] at hmove'
    · intro hmove
      obtain ⟨q', hmove', hqq'⟩ := hbisim.back p (f p) l (f q) (hf p) hmove
      rwa [hleft hmove'.target_lt hqq'] at hmove'

end Correspondence

/-- Accessible automata without bisimilar states are isomorphic exactly if their initial states are
bisimilar. -/
theorem isomorphic_iff (hA : A.Accessible) (hB : B.Accessible) (hdA : A.Discerning)
    (hdB : B.Discerning) : Isomorphic A B ↔ BisimilarInitials A B := by
  constructor
  · rintro ⟨f, hf⟩
    constructor
    · intro p hp
      have hlt := Automaton.lt_size_of_isInitial hp
      exact ⟨f ⟨p, hlt⟩, (hf.initial_eq ⟨p, hlt⟩).symm.trans hp, hf.bisimilar ⟨p, hlt⟩⟩
    · intro q hq
      obtain ⟨p, hp⟩ := f.surjective ⟨q, Automaton.lt_size_of_isInitial hq⟩
      have hpq : (f p : Nat) = q := congrArg Fin.val hp
      exact ⟨p, (hf.initial_eq p).trans (hpq ▸ hq), hpq ▸ hf.bisimilar p⟩
  · intro h
    -- Every state has one partner, since two partners would be bisimilar to each other.
    have hexists (p : Fin A.size) : ∃ q : Fin B.size, Bisimilar A B p q := by
      obtain ⟨q, hq, hpq⟩ := h.exists_bisimilar hA p.2
      exact ⟨⟨q, hq⟩, hpq⟩
    choose f hf using hexists
    have hinjective : Function.Injective f := fun p q hpq =>
      Fin.ext (hdA p p.2 q q.2 ((hf p).trans (hpq ▸ (hf q).symm)))
    have hsurjective : Function.Surjective f := by
      intro q
      obtain ⟨p, hp, hqp⟩ := h.symm.exists_bisimilar hB q.2
      exact ⟨⟨p, hp⟩, Fin.ext (hdB _ (f ⟨p, hp⟩).2 q q.2 ((hf ⟨p, hp⟩).symm.trans hqp.symm))⟩
    exact ⟨Equiv.ofBijective f ⟨hinjective, hsurjective⟩, isIsomorphism_of_bisimilar h hdA hdB hf⟩

end FiniteState
