import FiniteState.Proofs.Automaton.Language
import FiniteState.Proofs.Traversal
/-!
The useful states.  A state is accessible if some run from an initial state ends there, and
co-accessible if it accepts some word; the useful states are those with both properties.
-/

namespace FiniteState

universe u

variable {L : Type u} [Label L]

namespace Automaton

variable {A : Automaton L} {p q : Nat}

/-- Any traversal that stays among the states of the automaton has rounds enough. -/
theorem breadthFirst_states (next : Nat → List Nat) (starts : List Nat)
    (hstarts : ∀ p ∈ starts, p < A.size) (hclosed : ∀ p, ∀ q ∈ next p, q < A.size) :
    Traversal.BreadthFirst next starts (reach next A.size starts) :=
  breadthFirst_reach (fun p hp => mem_states.mpr (hstarts p hp))
    (fun p _ q hq => mem_states.mpr (hclosed p q hq)) (by simp [states])

/-- The accessible states are those that runs from initial states lead to. -/
theorem mem_accessible :
    p ∈ A.accessible ↔ ∃ i w, A.isInitial i = true ∧ Run A.Moves i w p := by
  have hreach := breadthFirst_states (A := A) (fun p => (A.outgoing p).toList.map Move.state)
    A.initials.toList (fun p hp => lt_size_of_isInitial (mem_initials.mp hp))
    fun p q hq => (mem_map_outgoing.mp hq).elim fun _ h => h.target_lt
  rw [accessible, OrderedSet.mem_ofList, hreach.mem_iff]
  constructor
  · intro h
    induction h with
    | @start p hp => exact ⟨p, [], mem_initials.mp hp, Run.done p⟩
    | step _ hq ih =>
        obtain ⟨i, w, hi, hrun⟩ := ih
        obtain ⟨l, hmove⟩ := mem_map_outgoing.mp hq
        exact ⟨i, w ++ l.toList, hi, hrun.append (Run.single hmove)⟩
  · intro h
    rcases h with ⟨i, w, hi, hrun⟩
    refine hrun.preserves (fun p l q h hmove => ?_) (.start (mem_initials.mpr hi))
    exact .step h (mem_map_outgoing.mpr ⟨l, hmove⟩)

/-- The co-accessible states are those that accept some word. -/
theorem mem_coAccessible : p ∈ A.coAccessible ↔ ∃ w, w ∈ A.languageFrom p := by
  have hreach := breadthFirst_states (A := A) (fun p => (A.incoming p).toList.map Move.state)
    A.terminals.toList (fun p hp => lt_size_of_isTerminal (mem_terminals.mp hp))
    fun p q hq => (mem_map_incoming.mp hq).elim fun _ h => h.start_lt
  rw [coAccessible, OrderedSet.mem_ofList, hreach.mem_iff]
  constructor
  · intro h
    induction h with
    | @start p hp => exact ⟨[], p, Run.done p, mem_terminals.mp hp⟩
    | step _ hq ih =>
        obtain ⟨w, hw⟩ := ih
        obtain ⟨l, hmove⟩ := mem_map_incoming.mp hq
        exact ⟨l.toList ++ w, append_mem_languageFrom (Run.single hmove) hw⟩
  · intro h
    rcases h with ⟨w, t, hrun, ht⟩
    induction hrun using Run.inductionOnMoves with
    | done t => exact .start (mem_terminals.mpr ht)
    | step p q t l w hmove _ ih =>
        exact .step (ih ht) (mem_map_incoming.mpr ⟨l, hmove⟩)

theorem mem_useful :
    p ∈ A.useful ↔
      (∃ i w, A.isInitial i = true ∧ Run A.Moves i w p) ∧ ∃ w, w ∈ A.languageFrom p := by
  rw [useful, OrderedSet.mem_inter, mem_accessible, mem_coAccessible]

/-- Some run from an initial state to a terminal one passes the state. -/
def OnAcceptingRun (A : Automaton L) (p : Nat) : Prop :=
  ∃ i v t w, A.isInitial i = true ∧ Run A.Moves i v p ∧ Run A.Moves p w t ∧ A.isTerminal t = true

theorem mem_useful_iff_onAcceptingRun : p ∈ A.useful ↔ A.OnAcceptingRun p := by
  rw [mem_useful]
  constructor
  · rintro ⟨⟨i, v, hi, hreach⟩, w, t, hrun, ht⟩
    exact ⟨i, v, t, w, hi, hreach, hrun, ht⟩
  · rintro ⟨i, v, t, w, hi, hreach, hrun, ht⟩
    exact ⟨⟨i, v, hi, hreach⟩, w, t, hrun, ht⟩

/-- Every state of the automaton is useful. -/
def Trim (A : Automaton L) : Prop :=
  ∀ p < A.size, p ∈ A.useful

/-- A trim automaton has no states exactly if it accepts no words. -/
theorem Trim.isEmpty_iff (h : A.Trim) : A.isEmpty = true ↔ ∀ w, w ∉ A.language := by
  rw [isEmpty, beq_iff_eq]
  constructor
  · intro hsize w h
    rcases h with ⟨i, hi, -⟩
    have hlt := lt_size_of_isInitial hi
    omega
  · intro hnone
    by_contra hsize
    obtain ⟨⟨i, v, hi, hrun⟩, w, hw⟩ := mem_useful.mp (h 0 (Nat.pos_of_ne_zero hsize))
    exact hnone (v ++ w) ⟨i, hi, append_mem_languageFrom hrun hw⟩

theorem mem_alphabet_of_mem_language {w : List L} {a : L} (hw : w ∈ A.language) (ha : a ∈ w) :
    a ∈ A.alphabet := by
  obtain ⟨i, -, t, hrun, -⟩ := hw
  exact mem_alphabet.mpr (hrun.exists_moves_of_mem ha)

/-- In a trim automaton the labels of the moves are the letters of the accepted words. -/
theorem Trim.mem_alphabet_iff (h : A.Trim) {a : L} :
    a ∈ A.alphabet ↔ ∃ w ∈ A.language, a ∈ w := by
  constructor
  · intro ha
    obtain ⟨p, q, hmove⟩ := mem_alphabet.mp ha
    obtain ⟨⟨i, v, hi, hrun⟩, -⟩ := mem_useful.mp (h p hmove.start_lt)
    obtain ⟨-, w, hw⟩ := mem_useful.mp (h q hmove.target_lt)
    refine ⟨v ++ ([a] ++ w), ⟨i, hi, ?_⟩, by simp⟩
    exact append_mem_languageFrom hrun (append_mem_languageFrom (Run.single hmove) hw)
  · intro h
    rcases h with ⟨w, hw, ha⟩
    exact mem_alphabet_of_mem_language hw ha

end Automaton

end FiniteState
