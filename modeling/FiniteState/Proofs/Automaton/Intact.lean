import FiniteState.Proofs.Automaton.Moves
import Mathlib.Data.Set.Card
/-!
The records of an automaton are kept twice and counted on the side, and names lead in both
directions.  What can be seen of them agrees: each transition is listed once and counted once, and a
name belongs to the state that has it.
-/

namespace FiniteState

universe u

variable {L : Type u} [Label L]

theorem Transition.precedes_iff {t u : Transition L} :
    Precedes t u ↔ t.start < u.start ∨ t.start = u.start ∧
      (Precedes t.label u.label ∨ t.label = u.label ∧ t.target < u.target) := by
  refine orderThen_eq_lt_iff.trans ?_
  refine or_congr precedes_iff_lt (and_congr_right' (orderThen_eq_lt_iff.trans ?_))
  exact or_congr Iff.rfl (and_congr_right' precedes_iff_lt)

namespace Automaton

variable {A : Automaton L}

section Transitions

theorem transitions_increasing : A.transitions.Pairwise Precedes := by
  rw [transitions, List.pairwise_flatMap]
  constructor
  · intro p _
    rw [transitionsFrom, List.pairwise_map]
    refine (A.outgoing p).increasing.imp fun {m n} h => Transition.precedes_iff.mpr (Or.inr ?_)
    exact ⟨rfl, (Move.precedes_iff.mp h).imp_right (And.imp_right precedes_iff_lt.mp)⟩
  · refine List.pairwise_lt_range.imp fun {p q} h t ht u hu => ?_
    obtain ⟨m, -, rfl⟩ := List.mem_map.mp ht
    obtain ⟨n, -, rfl⟩ := List.mem_map.mp hu
    exact Transition.precedes_iff.mpr (Or.inl h)

/-- The counter is the number of the transitions. -/
theorem transitionCount_eq_ncard :
    A.transitionCount =
      Set.ncard { t : Transition L | t.target ∈ (A.arena.outgoingAt t.start).statesAt t.label } := by
  classical
  have hset : { t : Transition L | t.target ∈ (A.arena.outgoingAt t.start).statesAt t.label } =
      A.transitions.toFinset := by
    ext t
    rw [Finset.mem_coe, List.mem_toFinset, mem_transitions, moves_iff_mem_statesAt]
    rfl
  have hnodup : A.transitions.Nodup := transitions_increasing.imp Precedes.ne
  rw [hset, Set.ncard_coe_finset, List.toFinset_card_of_nodup hnodup, length_transitions]

end Transitions

section Names

/-- An entry of a list without repeated keys is the one that is found by its key. -/
theorem find?_key_eq_some_iff {α κ : Type} [DecidableEq κ] {key : α → κ} {entries : List α}
    (hnodup : (entries.map key).Nodup) {entry : α} {k : κ} :
    entries.find? (fun e => key e == k) = some entry ↔ entry ∈ entries ∧ key entry = k := by
  constructor
  · intro h
    exact ⟨List.mem_of_find?_eq_some h, by simpa using List.find?_some h⟩
  · rintro ⟨hmem, rfl⟩
    cases hfind : entries.find? (fun e => key e == key entry) with
    | none => exact absurd (List.find?_eq_none.mp hfind entry hmem) (by simp)
    | some other =>
        have hkey : key other = key entry := by simpa using List.find?_some hfind
        rw [List.inj_on_of_nodup_map hnodup (List.mem_of_find?_eq_some hfind) hmem hkey]

theorem stateNamed?_eq_some_iff {name : String} {p : Nat} :
    A.stateNamed? name = some p ↔ (name, p) ∈ A.names := by
  rw [stateNamed?, Option.map_eq_some_iff]
  simp only [names, find?_key_eq_some_iff A.wellFormed.names_nodup]
  constructor
  · rintro ⟨⟨n, q⟩, ⟨hmem, rfl⟩, rfl⟩
    exact hmem
  · exact fun hmem => ⟨(name, p), ⟨hmem, rfl⟩, rfl⟩

theorem lt_size_of_stateNamed? {name : String} {p : Nat} (h : A.stateNamed? name = some p) :
    p < A.size :=
  A.wellFormed.names_lt _ (stateNamed?_eq_some_iff.mp h)

theorem nameOf?_eq_some_iff {name : String} {p : Nat} :
    A.nameOf? p = some name ↔ (name, p) ∈ A.names := by
  rw [nameOf?, Option.map_eq_some_iff]
  simp only [names, find?_key_eq_some_iff A.wellFormed.named_nodup]
  constructor
  · rintro ⟨⟨n, q⟩, ⟨hmem, rfl⟩, rfl⟩
    exact hmem
  · exact fun hmem => ⟨(name, p), ⟨hmem, rfl⟩, rfl⟩

end Names

/-- The records of an automaton are in step with each other. -/
structure Intact (A : Automaton L) : Prop where
  /-- There is one record of each kind for every state. -/
  flags_size : A.arena.flags.size = A.size
  outgoing_size : A.arena.outgoing.size = A.size
  incoming_size : A.arena.incoming.size = A.size
  /-- A transition is recorded at its start if and only if it is recorded at its target. -/
  mirrored : ∀ (p : Nat) (l : Option L) (q : Nat),
    q ∈ (A.arena.outgoingAt p).statesAt l ↔ p ∈ (A.arena.incomingAt q).statesAt l
  /-- Both ends of a transition are states. -/
  ends_lt : ∀ (p : Nat) (l : Option L) (q : Nat),
    q ∈ (A.arena.outgoingAt p).statesAt l → p < A.size ∧ q < A.size
  /-- No entry is without states. -/
  outgoing_filled : ∀ a ∈ A.arena.outgoing.toList, a.Filled
  incoming_filled : ∀ a ∈ A.arena.incoming.toList, a.Filled
  counted : A.transitionCount =
    Set.ncard { t : Transition L | t.target ∈ (A.arena.outgoingAt t.start).statesAt t.label }
  /-- The transitions are listed, all of them and no others. -/
  listed : ∀ t : Transition L,
    t ∈ A.transitions ↔ t.target ∈ (A.arena.outgoingAt t.start).statesAt t.label
  /-- Each transition is listed once, by start, label and target; what reads nothing comes first. -/
  increasing : A.transitions.Pairwise fun t u => t.start < u.start ∨ t.start = u.start ∧
    (Precedes t.label u.label ∨ t.label = u.label ∧ t.target < u.target)
  /-- Different names are given to different states. -/
  names_nodup : (A.names.map Prod.fst).Nodup ∧ (A.names.map Prod.snd).Nodup
  /-- Only states have names. -/
  named_lt : ∀ entry ∈ A.names, entry.2 < A.size
  mem_names : ∀ name p, (name, p) ∈ A.names ↔ A.stateNamed? name = some p
  /-- A name leads to the state that has it, and to no other. -/
  named_iff : ∀ name p, A.stateNamed? name = some p ↔ A.nameOf? p = some name

theorem intact (A : Automaton L) : A.Intact where
  flags_size := rfl
  outgoing_size := A.wellFormed.outgoing_size
  incoming_size := A.wellFormed.incoming_size
  mirrored := A.wellFormed.mirrored
  ends_lt _ _ _ h :=
    have hmove := moves_iff_mem_statesAt.mpr h
    ⟨hmove.start_lt, hmove.target_lt⟩
  outgoing_filled a ha := by
    obtain ⟨p, rfl⟩ := Arena.exists_adjacencyAt_of_mem ha
    exact A.wellFormed.outgoing_filled p
  incoming_filled a ha := by
    obtain ⟨p, rfl⟩ := Arena.exists_adjacencyAt_of_mem ha
    exact A.wellFormed.incoming_filled p
  counted := transitionCount_eq_ncard
  listed _ := mem_transitions.trans moves_iff_mem_statesAt
  increasing := transitions_increasing.imp Transition.precedes_iff.mp
  names_nodup := ⟨A.wellFormed.names_nodup, A.wellFormed.named_nodup⟩
  named_lt := A.wellFormed.names_lt
  mem_names _ _ := stateNamed?_eq_some_iff.symm
  named_iff _ _ := stateNamed?_eq_some_iff.trans nameOf?_eq_some_iff.symm

end Automaton

end FiniteState
