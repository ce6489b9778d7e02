import FiniteState.Proofs.Automaton.Bisimulation
import FiniteState.Proofs.Relation.Inquiry
import FiniteState.Relation.Matching
import Mathlib.Data.List.ProdSigma
/-!
The search for a relation that matches transitions is exact.  What a pair of states needs is that
its flags fit and that moves are answered by moves into related pairs; the obligations of a pair
ask for just that, and the depth of the search is never reached.
-/

namespace FiniteState

universe u

variable {L : Type u} [Label L]

namespace Matching

variable {m : Matching L} {pair : StatePair} {depth : Nat}

/-- What a pair of states needs of the related pairs. -/
structure Needs (m : Matching L) (related : StatePair → Prop) (pair : StatePair) : Prop where
  flags : m.flagsFit pair = true
  forth : ∀ l p, m.left.Moves pair.1 l p → ∃ q, m.right.Moves pair.2 l q ∧ related (p, q)
  back : m.twoSided = true →
    ∀ l q, m.right.Moves pair.2 l q → ∃ p, m.left.Moves pair.1 l p ∧ related (p, q)

/-- The pairs of a state of the left automaton and a state of the right one. -/
def space (m : Matching L) : List StatePair :=
  m.left.states ×ˢ m.right.states

theorem mem_space : pair ∈ m.space ↔ pair.1 < m.left.size ∧ pair.2 < m.right.size := by
  obtain ⟨p, q⟩ := pair
  rw [space, List.mem_product, Automaton.mem_states, Automaton.mem_states]

theorem length_space (m : Matching L) : m.space.length = m.left.size * m.right.size := by
  rw [space, List.length_product]
  simp [Automaton.states]

theorem monotone_needs (pair : StatePair) : Monotone fun related => m.Needs related pair := by
  intro related related' hle h
  refine ⟨h.flags, fun l p hmove => ?_, fun htwo l q hmove => ?_⟩
  · obtain ⟨q, hanswer, hpq⟩ := h.forth l p hmove
    exact ⟨q, hanswer, hle _ hpq⟩
  · obtain ⟨p, hanswer, hpq⟩ := h.back htwo l q hmove
    exact ⟨p, hanswer, hle _ hpq⟩

/-- The search asks only about pairs of states. -/
def SearchDecides (m : Matching L) (depth : Nat) : Prop :=
  ∀ pair ∈ m.space, Inquiry.Decides m.Needs m.space depth (m.search depth pair) fun related =>
    related pair

theorem monotone_exists {moves : List Nat} {pairWith : Nat → StatePair} :
    Monotone fun related : StatePair → Prop => ∃ q ∈ moves, related (pairWith q) := by
  intro related related' hle h
  rcases h with ⟨q, hq, h⟩
  exact ⟨q, hq, hle _ h⟩

theorem decides_forth (hsearch : m.SearchDecides depth) :
    Inquiry.Decides m.Needs m.space depth (m.forth (m.search depth) pair) fun related =>
      ∀ l p, m.left.Moves pair.1 l p → ∃ q, m.right.Moves pair.2 l q ∧ related (p, q) := by
  refine (Inquiry.decides_every (fun (move : Move L) related =>
    ∃ q ∈ m.right.successors pair.2 move.label, related (move.state, q)) ?_ ?_).congr ?_
  · intro move hmove
    have hmove : m.left.Moves pair.1 move.label move.state := hmove
    refine Inquiry.decides_some fun q hq => hsearch _ ?_
    exact mem_space.mpr ⟨hmove.target_lt, (Automaton.mem_successors.mp hq).target_lt⟩
  · exact fun _ _ => monotone_exists
  · intro related
    simp only [Automaton.mem_successors]
    exact ⟨fun h l p hmove => h ⟨l, p⟩ hmove, fun h move hmove => h move.label move.state hmove⟩

theorem decides_back (hsearch : m.SearchDecides depth) :
    Inquiry.Decides m.Needs m.space depth (m.back (m.search depth) pair) fun related =>
      ∀ l q, m.right.Moves pair.2 l q → ∃ p, m.left.Moves pair.1 l p ∧ related (p, q) := by
  refine (Inquiry.decides_every (fun (move : Move L) related =>
    ∃ p ∈ m.left.successors pair.1 move.label, related (p, move.state)) ?_ ?_).congr ?_
  · intro move hmove
    have hmove : m.right.Moves pair.2 move.label move.state := hmove
    refine Inquiry.decides_some fun p hp => hsearch _ ?_
    exact mem_space.mpr ⟨(Automaton.mem_successors.mp hp).target_lt, hmove.target_lt⟩
  · exact fun _ _ => monotone_exists
  · intro related
    simp only [Automaton.mem_successors]
    exact ⟨fun h l q hmove => h ⟨l, q⟩ hmove, fun h move hmove => h move.label move.state hmove⟩

/-- The obligations of a pair decide whether it has what it needs. -/
theorem decides_obligations (hsearch : m.SearchDecides depth) :
    Inquiry.Decides m.Needs m.space depth (m.obligations (m.search depth) pair) fun related =>
      m.Needs related pair := by
  have hback : Inquiry.Decides m.Needs m.space depth
      (if m.twoSided then m.back (m.search depth) pair else Inquiry.answer true) fun related =>
        m.twoSided = true →
          ∀ l q, m.right.Moves pair.2 l q → ∃ p, m.left.Moves pair.1 l p ∧ related (p, q) := by
    split
    · rename_i htwo
      exact (decides_back hsearch).congr fun _ => (imp_iff_right htwo).symm
    · rename_i htwo
      exact (Inquiry.decides_answer true).congr fun _ =>
        iff_of_true rfl fun h => absurd h htwo
  have hmono : Monotone fun related : StatePair → Prop =>
      ∀ l p, m.left.Moves pair.1 l p → ∃ q, m.right.Moves pair.2 l q ∧ related (p, q) := by
    intro related related' hle h l p hmove
    obtain ⟨q, hanswer, hpq⟩ := h l p hmove
    exact ⟨q, hanswer, hle _ hpq⟩
  refine ((Inquiry.decides_answer _).and monotone_const
    ((decides_forth hsearch).and hmono hback)).congr fun related => ?_
  exact ⟨fun h => ⟨h.1, h.2.1, h.2.2⟩, fun h => ⟨h.flags, h.forth, h.back⟩⟩

/-- The search decides whether a pair of states is related. -/
theorem searchDecides (m : Matching L) (depth : Nat) : m.SearchDecides depth := by
  induction depth with
  | zero => exact fun pair _ => Inquiry.decides_zero _ _
  | succ depth ih =>
      intro pair hpair
      exact (decides_obligations ih).prove monotone_needs hpair

theorem decides_related (hpair : pair ∈ m.space) :
    Inquiry.Decides m.Needs m.space (m.space.length + 1) (m.related pair) fun related =>
      related pair := by
  rw [length_space]
  exact m.searchDecides _ pair hpair

/-- The relations that have what they need in a two-sided matching are the bisimulations. -/
theorem forall_needs_iff_isBisimulation {A B : Automaton L} {related : StatePair → Prop} :
    (∀ x, related x → Needs ⟨A, B, true⟩ related x) ↔
      IsBisimulation A B fun p q => related (p, q) := by
  constructor
  · intro hneeds
    refine ⟨fun p q h => ?_, fun p q l p' h => ?_, fun p q l q' h => ?_⟩
    · exact beq_iff_eq.mp (hneeds (p, q) h).flags
    · exact (hneeds (p, q) h).forth l p'
    · exact (hneeds (p, q) h).back rfl l q'
  · intro hrelated x hx
    refine ⟨?_, fun l p' => ?_, fun _ l q' => ?_⟩
    · exact beq_iff_eq.mpr (hrelated.terminal_eq _ _ hx)
    · exact hrelated.forth _ _ l p' hx
    · exact hrelated.back _ _ l q' hx

/-- A two-sided matching relates exactly the bisimilar states. -/
theorem related_iff_bisimilar {A B : Automaton L} :
    Related (Needs ⟨A, B, true⟩) pair ↔ Bisimilar A B pair.1 pair.2 := by
  constructor
  · rintro ⟨related, hneeds, hpair⟩
    exact ⟨_, forall_needs_iff_isBisimulation.mp hneeds, hpair⟩
  · rintro ⟨related, hrelated, hpair⟩
    exact ⟨fun x => related x.1 x.2, forall_needs_iff_isBisimulation.mpr hrelated, hpair⟩

/-- The relations that have what they need in a one-sided matching are the simulations. -/
theorem forall_needs_iff_isSimulation {A B : Automaton L} {related : StatePair → Prop} :
    (∀ x, related x → Needs ⟨A, B, false⟩ related x) ↔
      IsSimulation A B fun p q => related (p, q) := by
  have hflags (x : StatePair) : flagsFit ⟨A, B, false⟩ x = true ↔
      (A.isTerminal x.1 = true → B.isTerminal x.2 = true) := by
    rw [flagsFit, if_neg Bool.false_ne_true, Bool.or_eq_true, Bool.not_eq_true',
      or_iff_not_imp_left, Bool.not_eq_false]
  constructor
  · intro hneeds
    refine ⟨fun p q h => ?_, fun p q l p' h => ?_⟩
    · exact (hflags (p, q)).mp (hneeds (p, q) h).flags
    · exact (hneeds (p, q) h).forth l p'
  · intro hrelated x hx
    refine ⟨?_, fun l p' => ?_, nofun⟩
    · exact (hflags x).mpr (hrelated.terminal _ _ hx)
    · exact hrelated.forth _ _ l p' hx

/-- A one-sided matching relates a state exactly to those that simulate it. -/
theorem related_iff_simulatedBy {A B : Automaton L} :
    Related (Needs ⟨A, B, false⟩) pair ↔ SimulatedBy A B pair.1 pair.2 := by
  constructor
  · rintro ⟨related, hneeds, hpair⟩
    exact ⟨_, forall_needs_iff_isSimulation.mp hneeds, hpair⟩
  · rintro ⟨related, hrelated, hpair⟩
    exact ⟨fun x => related x.1 x.2, forall_needs_iff_isSimulation.mpr hrelated, hpair⟩

end Matching

end FiniteState
