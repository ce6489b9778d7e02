import FiniteState.Handle.Basic
import FiniteState.Proofs.Automaton.Language
/-!
Handles and the states that they name.  What is said about a set of handles concerns the states that
belong to the automaton; foreign handles in it do not matter.
-/

namespace FiniteState

universe u

variable {L : Type u} [Label L]

namespace Tagged

variable {T : Tagged L} {h : Handle} {S : HandleSet} {p : Nat} {w : List L}

theorem contains_iff : T.contains h = true ↔ h.tag = T.tag ∧ h.index < T.automaton.size := by
  rw [contains, Bool.and_eq_true, beq_iff_eq, decide_eq_true_iff]

theorem contains_handle : T.contains (T.handle p) = true ↔ p < T.automaton.size :=
  contains_iff.trans (and_iff_right rfl)

theorem mem_initials : h ∈ T.initials ↔ ∃ p, T.automaton.isInitial p = true ∧ T.handle p = h := by
  rw [initials, OrderedSet.mem_image]
  simp only [Automaton.mem_initials]

theorem mem_own {handles : List Handle} :
    p ∈ T.own handles ↔ ∃ h ∈ handles, T.contains h = true ∧ h.index = p := by
  rw [own, List.mem_map]
  simp only [List.mem_filter, and_assoc]

def acceptedFrom (T : Tagged L) (S : HandleSet) : Language L :=
  { w | ∃ h ∈ S, T.contains h = true ∧ w ∈ T.automaton.languageFrom h.index }

/-- The words that are accepted from the initial states are those that the automaton accepts. -/
theorem acceptedFrom_initials : T.acceptedFrom T.initials = T.automaton.language := by
  ext w
  constructor
  · rintro ⟨_, hh, -, hw⟩
    obtain ⟨p, hp, rfl⟩ := mem_initials.mp hh
    exact ⟨p, hp, hw⟩
  · rintro ⟨p, hp, hw⟩
    exact ⟨T.handle p, mem_initials.mpr ⟨p, hp, rfl⟩,
      contains_handle.mpr (Automaton.lt_size_of_isInitial hp), hw⟩

/-- Reading a word from the states that are named and those behind silent moves leads to the ends of
the runs from the named states. -/
theorem mem_readFrom_own {q : Nat} :
    q ∈ T.automaton.readFrom (T.automaton.closure (T.own S.toList)) w ↔
      ∃ h ∈ S, T.contains h = true ∧ Run T.automaton.Moves h.index w q := by
  simp only [Automaton.mem_readFrom_closure, mem_own]
  constructor
  · rintro ⟨_, ⟨h, hh, hcontains, rfl⟩, -, hrun⟩
    exact ⟨h, hh, hcontains, hrun⟩
  · rintro ⟨h, hh, hcontains, hrun⟩
    exact ⟨h.index, ⟨h, hh, hcontains, rfl⟩, (contains_iff.mp hcontains).2, hrun⟩

/-- Reading a word from the states that are named and those behind silent moves leads to a terminal
state exactly if the word is accepted from the set. -/
theorem meetsTerminal_readFrom_iff :
    T.automaton.meetsTerminal (T.automaton.readFrom (T.automaton.closure (T.own S.toList)) w) = true
      ↔ w ∈ T.acceptedFrom S := by
  rw [Automaton.meetsTerminal_readFrom_closure_iff]
  simp only [mem_own]
  constructor
  · rintro ⟨_, ⟨h, hh, hcontains, rfl⟩, hw⟩
    exact ⟨h, hh, hcontains, hw⟩
  · rintro ⟨h, hh, hcontains, hw⟩
    exact ⟨h.index, ⟨h, hh, hcontains, rfl⟩, hw⟩

end Tagged

end FiniteState
