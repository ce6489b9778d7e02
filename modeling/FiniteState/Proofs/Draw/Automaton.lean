import FiniteState.Draw.Automaton
import FiniteState.Proofs.Automaton.Deterministic
import FiniteState.Proofs.Automaton.Parts
import FiniteState.Proofs.Draw.Generator
/-!
Random deterministic automata.  One transition is drawn for every state and every place in the list
of letters, and only its target is left to chance.  So whatever is drawn, every state has a
successor for every letter, and not more of them than the letter has places: exactly one if no
letter is given twice.
-/

namespace FiniteState

universe u

variable {L : Type u} {σ : Type}

namespace Draw

/-- The starts and labels of the transitions that are drawn. -/
def places (alphabet : List L) (size : Nat) : List (Nat × Option L) :=
  (List.range size).flatMap fun p => alphabet.map fun l => (p, some l)

/-- What does not depend on the draws. -/
structure Wired (alphabet : List L) (size : Nat) (flags : List Flags)
    (transitions : List (Transition L)) : Prop where
  initial : flags.map Flags.initial = (List.range size).map fun p => p == 0
  placed : transitions.map (fun t => (t.start, t.label)) = places alphabet size
  target_lt : ∀ t ∈ transitions, t.target < size

/-- The parts of a random automaton depend on the draws only in where the transitions lead and in
which states are terminal. -/
theorem exists_wired [Label L] (coin : Draw σ Bool) {pick : Nat → Draw σ Nat}
    (hpick : ∀ n s, 0 < n → (pick n s).1 < n) (alphabet : List L) (size : Nat) (s : σ) :
    ∃ flags transitions, Wired alphabet size flags transitions ∧
      (deterministicBy coin pick alphabet size s).1 = .ofParts flags transitions := by
  refine ⟨_, _, ⟨?_, ?_, ?_⟩, rfl⟩
  · exact map_forEach (k := fun p => p == 0) (fun _ _ => rfl) _
  · rw [map_forEach (k := fun entry => (entry.1, some entry.2)) fun _ _ => rfl]
    simp [places, List.map_flatMap, Function.comp_def]
  · apply forall_mem_forEach
    intro entry hentry s
    obtain ⟨p, hp, -⟩ := List.mem_flatMap.mp hentry
    exact hpick size s (Nat.zero_lt_of_lt (List.mem_range.mp hp))

section Places

variable {alphabet : List L} {size p : Nat} {l : Option L}

theorem mem_places : (p, l) ∈ places alphabet size ↔ p < size ∧ ∃ a ∈ alphabet, l = some a := by
  simp only [places, List.mem_flatMap, List.mem_range, List.mem_map, Prod.mk.injEq]
  constructor
  · rintro ⟨_, hp, a, ha, rfl, rfl⟩
    exact ⟨hp, a, ha, rfl⟩
  · rintro ⟨hp, a, ha, rfl⟩
    exact ⟨p, hp, a, ha, rfl, rfl⟩

/-- A letter has as many places in a state as in the list of letters. -/
theorem count_places_le [Label L] (alphabet : List L) (size p : Nat) (a : L) :
    (places alphabet size).count (p, some a) ≤ alphabet.count a := by
  have hnodup : (List.range size).Nodup := List.nodup_range
  rw [places]
  generalize List.range size = states at hnodup
  induction states with
  | nil => exact Nat.zero_le _
  | cons q rest ih =>
      obtain ⟨hq, hrest⟩ := List.nodup_cons.mp hnodup
      rw [List.flatMap_cons, List.count_append]
      by_cases hpq : p = q
      · have hinjective : Function.Injective fun l : L => (q, some l) := by
          intro x y hxy
          simpa using hxy
        have hnone :
            (rest.flatMap fun p => alphabet.map fun l => (p, some l)).count (p, some a) = 0 := by
          rw [List.count_eq_zero]
          simp [hpq, hq]
        rw [hnone, hpq]
        exact Nat.le_of_eq (List.count_map_of_injective alphabet _ hinjective a)
      · have hnone : (alphabet.map fun l => (q, some l)).count (p, some a) = 0 := by
          rw [List.count_eq_zero]
          simp [Ne.symm hpq]
        rw [hnone, Nat.zero_add]
        exact ih hrest

end Places

namespace Wired

variable {alphabet : List L} {size p q : Nat} {l : Option L} {a : L} {flags : List Flags}
  {transitions : List (Transition L)}

theorem length_flags (h : Wired alphabet size flags transitions) : flags.length = size := by
  simpa using congrArg List.length h.initial

variable [Label L]

theorem isInitial_iff (h : Wired alphabet size flags transitions) :
    (Automaton.ofParts flags transitions : Automaton L).isInitial p = true ↔ p = 0 ∧ 0 < size := by
  have hflag : flags[p]?.any Flags.initial = (flags.map Flags.initial)[p]?.any id := by
    rw [List.getElem?_map, Option.any_map]
    rfl
  rw [Automaton.isInitial_ofParts, hflag, h.initial, List.getElem?_map, Option.any_map]
  by_cases hp : p < size
  · rw [List.getElem?_range hp]
    simp
    omega
  · rw [List.getElem?_eq_none (by simpa using hp)]
    simp
    omega

theorem moves_iff (h : Wired alphabet size flags transitions) :
    (Automaton.ofParts flags transitions).Moves p l q ↔ ⟨p, l, q⟩ ∈ transitions := by
  rw [Automaton.moves_ofParts, h.length_flags]
  refine and_iff_left_of_imp fun ht => ⟨?_, h.target_lt _ ht⟩
  have hplace : (p, l) ∈ transitions.map fun t => (t.start, t.label) :=
    List.mem_map.mpr ⟨_, ht, rfl⟩
  exact (mem_places.mp (h.placed ▸ hplace)).1

/-- Something is read exactly in the places that there are. -/
theorem exists_moves_iff (h : Wired alphabet size flags transitions) :
    (∃ q, (Automaton.ofParts flags transitions).Moves p l q) ↔
      p < size ∧ ∃ a ∈ alphabet, l = some a := by
  rw [← mem_places, ← h.placed, List.mem_map]
  simp only [h.moves_iff, Prod.mk.injEq]
  constructor
  · rintro ⟨q, hq⟩
    exact ⟨⟨p, l, q⟩, hq, rfl, rfl⟩
  · rintro ⟨⟨p, l, q⟩, ht, rfl, rfl⟩
    exact ⟨q, ht⟩

/-- A letter has no more successors than places, as each place has one target. -/
theorem length_successors_le (h : Wired alphabet size flags transitions) :
    ((Automaton.ofParts flags transitions).successors p (some a)).length ≤ alphabet.count a := by
  have hnodup : ((Automaton.ofParts flags transitions).successors p (some a)).Nodup :=
    OrderedSet.toList_nodup _
  have hmem (q : Nat) (hq : q ∈ (Automaton.ofParts flags transitions).successors p (some a)) :
      ⟨p, some a, q⟩ ∈ transitions := h.moves_iff.mp (Automaton.mem_successors.mp hq)
  generalize (Automaton.ofParts flags transitions).successors p (some a) = targets at hnodup hmem
  have hsub : targets.Subperm
      ((transitions.filter fun t => (t.start, t.label) == (p, some a)).map Transition.target) := by
    refine List.subperm_of_subset hnodup fun q hq => ?_
    exact List.mem_map.mpr ⟨_, List.mem_filter.mpr ⟨hmem q hq, beq_self_eq_true _⟩, rfl⟩
  calc
    targets.length ≤ (transitions.filter fun t => (t.start, t.label) == (p, some a)).length := by
      simpa using hsub.length_le
    _ = (places alphabet size).count (p, some a) := by
      rw [← h.placed, List.count, List.countP_map, List.countP_eq_length_filter]
      rfl
    _ ≤ alphabet.count a := count_places_le alphabet size p a

end Wired

variable [Label L]

/-- What a random deterministic automaton is, whatever was drawn. -/
structure IsDrawn (alphabet : List L) (size : Nat) (A : Automaton L) : Prop where
  size_eq : A.size = size
  isInitial_iff : ∀ p, A.isInitial p = true ↔ p = 0 ∧ 0 < size
  /-- Only letters are read. -/
  reads : ∀ p l q, A.Moves p l q → ∃ a ∈ alphabet, l = some a
  /-- Every state reads every letter. -/
  complete : ∀ p < size, ∀ a ∈ alphabet, ∃ q, A.Moves p (some a) q
  /-- There are at most as many successors as the letter has places in the list of letters. -/
  length_le : ∀ p a, (A.successors p (some a)).length ≤ alphabet.count a

theorem Wired.isDrawn {alphabet : List L} {size : Nat} {flags : List Flags}
    {transitions : List (Transition L)} (h : Wired alphabet size flags transitions) :
    IsDrawn alphabet size (.ofParts flags transitions) where
  size_eq := by rw [Automaton.size_ofParts, h.length_flags]
  isInitial_iff _ := h.isInitial_iff
  reads _ _ q hmove := (h.exists_moves_iff.mp ⟨q, hmove⟩).2
  complete _ hp a ha := h.exists_moves_iff.mpr ⟨hp, a, ha, rfl⟩
  length_le _ _ := h.length_successors_le

namespace IsDrawn

variable {alphabet : List L} {size p : Nat} {a : L} {A : Automaton L}

/-- If no letter is given twice, it has exactly one successor in every state. -/
theorem exists_successors_eq (h : IsDrawn alphabet size A) (hnodup : alphabet.Nodup)
    (hp : p < size) (ha : a ∈ alphabet) : ∃ q, A.successors p (some a) = [q] := by
  obtain ⟨q, hmove⟩ := h.complete p hp a ha
  have hpos : 0 < (A.successors p (some a)).length :=
    List.length_pos_of_mem (Automaton.mem_successors.mpr hmove)
  have hle := h.length_le p a
  rw [List.count_eq_one_of_mem hnodup ha] at hle
  exact List.length_eq_one_iff.mp (Nat.le_antisymm hle hpos)

theorem isDeterministic (h : IsDrawn alphabet size A) (hnodup : alphabet.Nodup) :
    A.isDeterministic = true := by
  refine Automaton.isDeterministic_iff.mpr ⟨fun p q hp hq => ?_, fun p q hmove => ?_, ?_⟩
  · rw [((h.isInitial_iff p).mp hp).1, ((h.isInitial_iff q).mp hq).1]
  · obtain ⟨a, -, hsilent⟩ := h.reads p none q hmove
    cases hsilent
  · intro p l q q' hmove hmove'
    obtain ⟨a, ha, rfl⟩ := h.reads p l q hmove
    obtain ⟨r, hr⟩ := h.exists_successors_eq hnodup (h.size_eq ▸ hmove.start_lt) ha
    have hunique := Automaton.successors_eq_singleton_iff.mp hr
    rw [(hunique q).mp hmove, (hunique q').mp hmove']

end IsDrawn

/-- Whatever is drawn, a random automaton has the given size, starts in its first state, and reads
every letter in every state.  If no letter is given twice, it is deterministic, with exactly one
successor for every letter. -/
theorem random_automata_are_deterministic_and_complete (coin : Draw σ Bool) (pick : Nat → Draw σ Nat)
    (hpick : ∀ n s, 0 < n → (pick n s).1 < n) (alphabet : List L) (size : Nat) (s : σ) :
    IsDrawn alphabet size (deterministicBy coin pick alphabet size s).1 ∧
      (alphabet.Nodup →
        (deterministicBy coin pick alphabet size s).1.isDeterministic = true ∧
        ∀ p < size, ∀ a ∈ alphabet,
          ∃ q, (deterministicBy coin pick alphabet size s).1.successors p (some a) = [q]) := by
  obtain ⟨flags, transitions, hwired, heq⟩ := exists_wired coin hpick alphabet size s
  rw [heq]
  have hdrawn := hwired.isDrawn
  refine ⟨hdrawn, fun hnodup => ⟨hdrawn.isDeterministic hnodup, fun p hp a ha => ?_⟩⟩
  exact hdrawn.exists_successors_eq hnodup hp ha

section Generator

open Generator (next attempts)

/-- The numbers that the generator draws are as small as that asks for. -/
theorem random_automaton_over_two_letters_is_deterministic :
    (deterministic next attempts ['a', 'b'] 3 ⟨7⟩).1.isDeterministic = true ∧
      (deterministic next attempts ['a', 'b'] 3 ⟨7⟩).1.size = 3 := by
  have hdrawn := random_automata_are_deterministic_and_complete (bool next) (below next attempts)
    (fun _ s hn => below_lt next attempts hn s) ['a', 'b'] 3 ⟨7⟩
  exact ⟨(hdrawn.2 (by decide)).1, hdrawn.1.size_eq⟩

/-- A letter that is given twice may get two successors. -/
theorem random_automaton_with_repeated_letter_is_not_deterministic :
    (deterministic next attempts ['a', 'a'] 2 ⟨7⟩).1.successors 0 (some 'a') = [0, 1] ∧
      (deterministic next attempts ['a', 'a'] 2 ⟨7⟩).1.isDeterministic = false := by
  decide +kernel

end Generator

end Draw

end FiniteState
