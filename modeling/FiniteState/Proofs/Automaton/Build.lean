import FiniteState.Proofs.Automaton.Intact
import FiniteState.Proofs.Automaton.Parts
import Mathlib.Order.Bounds.Basic
/-!
What is built from a description.  The automaton has exactly the transitions and flags that some
part of the description gives, in whatever order and however often, and just enough states for all
that is mentioned.  So a description of what can be seen of an automaton builds its records again.
All that asks for numbers whose successors have 64 bits.
-/

namespace FiniteState

universe u v

variable {L : Type u}

namespace Blueprint

variable {α : Type v} {b : Blueprint L} {parts : List (Blueprint L)} {p : Nat}

def Mentions (b : Blueprint L) (p : Nat) : Prop :=
  (∃ t ∈ b.transitions, p = t.start ∨ p = t.target) ∨ p ∈ b.initials ∨ p ∈ b.terminals

/-- After every state of which the description speaks, there is another number of 64 bits. -/
def Fits (b : Blueprint L) : Prop :=
  ∀ p, b.Mentions p → p + 1 < UInt64.size

section Merge

theorem mem_foldl_merge {listed : Blueprint L → List α}
    (h : ∀ b b', listed (merge b b') = listed b ++ listed b') {a : α} :
    a ∈ listed (parts.foldl merge b) ↔ a ∈ listed b ∨ ∃ part ∈ parts, a ∈ listed part := by
  induction parts generalizing b with
  | nil => simp
  | cons part rest ih =>
      simp only [List.foldl_cons, ih, h, List.mem_append, or_assoc, List.mem_cons,
        exists_eq_or_imp]

theorem mem_mergeAll {listed : Blueprint L → List α}
    (h : ∀ b b', listed (merge b b') = listed b ++ listed b') (hnone : listed ⟨0, [], [], []⟩ = [])
    {a : α} : a ∈ listed (mergeAll parts) ↔ ∃ part ∈ parts, a ∈ listed part := by
  rw [mergeAll, mem_foldl_merge h, hnone]
  exact or_iff_right List.not_mem_nil

theorem mem_transitions_mergeAll {t : Transition L} :
    t ∈ (mergeAll parts).transitions ↔ ∃ part ∈ parts, t ∈ part.transitions :=
  mem_mergeAll (fun _ _ => rfl) rfl

theorem mem_initials_mergeAll :
    p ∈ (mergeAll parts).initials ↔ ∃ part ∈ parts, p ∈ part.initials :=
  mem_mergeAll (fun _ _ => rfl) rfl

theorem mem_terminals_mergeAll :
    p ∈ (mergeAll parts).terminals ↔ ∃ part ∈ parts, p ∈ part.terminals :=
  mem_mergeAll (fun _ _ => rfl) rfl

theorem mentions_mergeAll :
    (mergeAll parts).Mentions p ↔ ∃ part ∈ parts, part.Mentions p := by
  simp only [Mentions, mem_transitions_mergeAll, mem_initials_mergeAll, mem_terminals_mergeAll]
  constructor
  · rintro (⟨t, ⟨part, hpart, ht⟩, hp⟩ | ⟨part, hpart, hp⟩ | ⟨part, hpart, hp⟩)
    · exact ⟨part, hpart, Or.inl ⟨t, ht, hp⟩⟩
    · exact ⟨part, hpart, Or.inr (Or.inl hp)⟩
    · exact ⟨part, hpart, Or.inr (Or.inr hp)⟩
  · rintro ⟨part, hpart, ⟨t, ht, hp⟩ | hp | hp⟩
    · exact Or.inl ⟨t, ⟨part, hpart, ht⟩, hp⟩
    · exact Or.inr (Or.inl ⟨part, hpart, hp⟩)
    · exact Or.inr (Or.inr ⟨part, hpart, hp⟩)

theorem fits_mergeAll (h : ∀ part ∈ parts, part.Fits) : (mergeAll parts).Fits := by
  intro p hp
  obtain ⟨part, hpart, hp⟩ := mentions_mergeAll.mp hp
  exact h part hpart p hp

end Merge

section Size

variable {f : α → Nat} {l : List α} {n m : Nat}

theorem foldl_max_le_iff :
    l.foldl (fun n a => max n (f a)) n ≤ m ↔ n ≤ m ∧ ∀ a ∈ l, f a ≤ m := by
  induction l generalizing n with
  | nil => simp
  | cons a rest ih => rw [List.foldl_cons, ih, max_le_iff, List.forall_mem_cons, and_assoc]

theorem foldl_max_eq_or :
    l.foldl (fun n a => max n (f a)) n = n ∨ ∃ a ∈ l, l.foldl (fun n a => max n (f a)) n = f a := by
  induction l generalizing n with
  | nil => exact Or.inl rfl
  | cons a rest ih =>
      rw [List.foldl_cons]
      rcases ih (n := max n (f a)) with h | ⟨a', ha', h⟩
      · rcases max_choice n (f a) with hmax | hmax
        · exact Or.inl (h.trans hmax)
        · exact Or.inr ⟨a, List.mem_cons_self, h.trans hmax⟩
      · exact Or.inr ⟨a', List.mem_cons_of_mem a ha', h⟩

theorem isGreatest_foldl_max :
    IsGreatest (insert n { m | ∃ a ∈ l, m = f a }) (l.foldl (fun n a => max n (f a)) n) := by
  have hle := foldl_max_le_iff.mp (le_refl (l.foldl (fun n a => max n (f a)) n))
  refine ⟨foldl_max_eq_or, ?_⟩
  rintro m (rfl | ⟨a, ha, rfl⟩)
  · exact hle.1
  · exact hle.2 a ha

theorem mem_mentioned : p ∈ b.mentioned ↔ b.Mentions p := by
  simp [mentioned, Mentions]

/-- There are as many states as are asked for, or more if a state is mentioned that would not be
among them. -/
theorem Fits.isGreatest_size (h : b.Fits) :
    IsGreatest (insert b.states { n | ∃ p, b.Mentions p ∧ n = p + 1 }) b.size := by
  have hwords : { n | ∃ p, b.Mentions p ∧ n = p + 1 } =
      { n | ∃ p ∈ b.mentioned, n = (p + 1) % UInt64.size } := by
    refine Set.ext fun n => exists_congr fun p => ?_
    rw [mem_mentioned]
    exact and_congr_right fun hp => by rw [Nat.mod_eq_of_lt (h p hp)]
  rw [hwords]
  exact isGreatest_foldl_max

theorem Fits.lt_size (h : b.Fits) (hp : b.Mentions p) : p < b.size :=
  h.isGreatest_size.2 (Or.inr ⟨p, hp, rfl⟩)

theorem Fits.ends_lt_size (h : b.Fits) {t : Transition L} (ht : t ∈ b.transitions) :
    t.start < b.size ∧ t.target < b.size :=
  ⟨h.lt_size (Or.inl ⟨t, ht, Or.inl rfl⟩), h.lt_size (Or.inl ⟨t, ht, Or.inr rfl⟩)⟩

theorem isGreatest_states_mergeAll (parts : List (Blueprint L)) :
    IsGreatest (insert 0 { n | ∃ part ∈ parts, n = part.states }) (mergeAll parts).states := by
  have hstates : (mergeAll parts).states = parts.foldl (fun n part => max n part.states) 0 :=
    (List.foldl_hom Blueprint.states fun _ _ => rfl).symm
  rw [hstates]
  exact isGreatest_foldl_max

/-- There are as many states as some part of the description calls for. -/
theorem isGreatest_size_mergeAll (h : ∀ part ∈ parts, part.Fits) :
    IsGreatest
      (insert 0 { n | ∃ part ∈ parts, n = part.states ∨ ∃ p, part.Mentions p ∧ n = p + 1 })
      (mergeAll parts).size := by
  obtain ⟨hsize, hle⟩ := (fits_mergeAll h).isGreatest_size
  obtain ⟨hstates, hstatesle⟩ := isGreatest_states_mergeAll parts
  simp only [mentions_mergeAll] at hsize hle
  have hasked : (mergeAll parts).states ≤ (mergeAll parts).size := hle (Or.inl rfl)
  constructor
  · rcases hsize with h | ⟨p, ⟨part, hpart, hp⟩, h⟩
    · rw [h]
      rcases hstates with h0 | ⟨part, hpart, h⟩
      · exact Or.inl h0
      · exact Or.inr ⟨part, hpart, Or.inl h⟩
    · exact Or.inr ⟨part, hpart, Or.inr ⟨p, hp, h⟩⟩
  · rintro n (rfl | ⟨part, hpart, rfl | ⟨p, hp, rfl⟩⟩)
    · exact Nat.zero_le _
    · exact (hstatesle (Or.inr ⟨part, hpart, rfl⟩)).trans hasked
    · exact hle (Or.inr ⟨p, ⟨part, hpart, hp⟩, rfl⟩)

end Size

section Build

variable [Label L] {b : Blueprint L} {q : Nat} {l : Option L} {t : Transition L}

theorem size_automaton (b : Blueprint L) : b.automaton.size = b.size := by
  simp [automaton]

theorem isInitial_automaton (h : b.Fits) : b.automaton.isInitial p = true ↔ p ∈ b.initials := by
  rw [automaton, Automaton.isInitial_ofParts, Automaton.any_map_range, List.contains_iff_mem]
  exact and_iff_right_of_imp fun hp => h.lt_size (Or.inr (Or.inl hp))

theorem isTerminal_automaton (h : b.Fits) :
    b.automaton.isTerminal p = true ↔ p ∈ b.terminals := by
  rw [automaton, Automaton.isTerminal_ofParts, Automaton.any_map_range, List.contains_iff_mem]
  exact and_iff_right_of_imp fun hp => h.lt_size (Or.inr (Or.inr hp))

theorem moves_automaton (h : b.Fits) : b.automaton.Moves p l q ↔ ⟨p, l, q⟩ ∈ b.transitions := by
  rw [automaton, Automaton.moves_ofParts, List.length_map, List.length_range]
  exact and_iff_left_of_imp h.ends_lt_size

end Build

end Blueprint

def Automaton.unnamed [Label L] (A : Automaton L) : Automaton L where
  arena := { A.arena with names := [] }
  wellFormed :=
    { outgoing_size := A.wellFormed.outgoing_size
      incoming_size := A.wellFormed.incoming_size
      mirrored := A.wellFormed.mirrored
      outgoing_filled := A.wellFormed.outgoing_filled
      incoming_filled := A.wellFormed.incoming_filled
      counted := A.wellFormed.counted
      names_lt := fun _ h => absurd h List.not_mem_nil
      names_nodup := List.nodup_nil
      named_nodup := List.nodup_nil }

section Inspected

variable [Label L] {parts : List (Blueprint L)} {A : Automaton L}

/-- The parts list what can be seen of the automaton. -/
structure Describes (parts : List (Blueprint L)) (A : Automaton L) : Prop where
  states : IsGreatest { n | ∃ part ∈ parts, n = part.states } A.size
  transitions : ∀ t, (∃ part ∈ parts, t ∈ part.transitions) ↔ t ∈ A.transitions
  initials : ∀ p, (∃ part ∈ parts, p ∈ part.initials) ↔ p ∈ A.initials
  terminals : ∀ p, (∃ part ∈ parts, p ∈ part.terminals) ↔ p ∈ A.terminals

theorem Describes.lt_size (h : Describes parts A) {part : Blueprint L} (hpart : part ∈ parts)
    {p : Nat} (hp : part.Mentions p) : p < A.size := by
  rcases hp with ⟨t, ht, hp⟩ | hp | hp
  · have hmove := Automaton.mem_transitions.mp ((h.transitions t).mp ⟨part, hpart, ht⟩)
    rcases hp with rfl | rfl
    · exact hmove.start_lt
    · exact hmove.target_lt
  · have hinitial := (h.initials p).mp ⟨part, hpart, hp⟩
    exact Automaton.lt_size_of_isInitial (Automaton.mem_initials.mp hinitial)
  · have hterminal := (h.terminals p).mp ⟨part, hpart, hp⟩
    exact Automaton.lt_size_of_isTerminal (Automaton.mem_terminals.mp hterminal)

theorem Describes.size_eq (h : Describes parts A) (hfits : ∀ part ∈ parts, part.Fits) :
    (Blueprint.mergeAll parts).size = A.size := by
  refine (Blueprint.isGreatest_size_mergeAll hfits).unique ⟨?_, ?_⟩
  · obtain ⟨part, hpart, hsize⟩ := h.states.1
    exact Or.inr ⟨part, hpart, Or.inl hsize⟩
  · rintro n (rfl | ⟨part, hpart, rfl | ⟨p, hp, rfl⟩⟩)
    · exact Nat.zero_le _
    · exact h.states.2 ⟨part, hpart, rfl⟩
    · exact h.lt_size hpart hp

end Inspected

end FiniteState
