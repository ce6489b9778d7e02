import FiniteState.Construction.Regular
import FiniteState.Proofs.Automaton.Language
import FiniteState.Proofs.Automaton.Parts
/-!
Images and preimages under maps of labels.  A map that may erase labels maps a word letter by letter
and leaves the erased letters out.  A run of the image reads what some run of the automaton reads,
but mapped; labels may be merged, so there may be several such runs.  A run of the preimage reads a
word over the domain whose mapped word is read by a run of the automaton between the same states,
since an erased letter is read without moving.
-/

namespace FiniteState

universe u v

variable {L : Type u} {K : Type v} [Label L] [Label K]

/-- A move of a preimage.  A letter of the domain is read where the automaton reads what it is
mapped to, and an erased letter in every state. -/
inductive PreimageMove (A : Automaton L) (domain : List K) (h : K → Option L) :
    Nat → Option K → Nat → Prop where
  | silent {p q : Nat} : A.Moves p none q → PreimageMove A domain h p none q
  | read {p q : Nat} {k : K} {l : L} : k ∈ domain → h k = some l → A.Moves p (some l) q →
      PreimageMove A domain h p (some k) q
  | erased {p : Nat} {k : K} : k ∈ domain → h k = none → p < A.size →
      PreimageMove A domain h p (some k) p

namespace Automaton

variable {A : Automaton L} {p q : Nat}

section Image

variable {h : L → Option K} {k : Option K} {w : List K}

theorem isInitial_image (p : Nat) : (A.image h).isInitial p = A.isInitial p := by
  rw [image, isInitial_ofParts, any_initial_flags]

theorem isTerminal_image (p : Nat) : (A.image h).isTerminal p = A.isTerminal p := by
  rw [image, isTerminal_ofParts, any_terminal_flags]

theorem moves_image : (A.image h).Moves p k q ↔ ∃ l, A.Moves p l q ∧ l.bind h = k := by
  rw [image, moves_ofParts, List.mem_map, length_flags]
  simp only [mem_transitions, Transition.mk.injEq]
  constructor
  · rintro ⟨⟨t, hmove, rfl, rfl, rfl⟩, -, -⟩
    exact ⟨t.label, hmove, rfl⟩
  · rintro ⟨l, hmove, rfl⟩
    exact ⟨⟨⟨p, l, q⟩, hmove, rfl, rfl, rfl⟩, hmove.start_lt, hmove.target_lt⟩

/-- What a run of the image reads is the mapped word of some run of the automaton. -/
theorem run_image_iff :
    Run (A.image h).Moves p w q ↔ ∃ v, Run A.Moves p v q ∧ v.filterMap h = w := by
  constructor
  · intro hrun
    induction hrun using Run.inductionOnMoves with
    | done p => exact ⟨[], Run.done p, rfl⟩
    | step p r q k w hmove _ ih =>
        obtain ⟨v, hrun, rfl⟩ := ih
        obtain ⟨l, hread, rfl⟩ := moves_image.mp hmove
        refine ⟨l.toList ++ v, Run.step hread hrun, ?_⟩
        rw [List.filterMap_append, filterMap_toList]
  · rintro ⟨v, hrun, rfl⟩
    refine hrun.filterMap h fun p l q hmove => Run.single ?_
    exact moves_image.mpr ⟨l, hmove, rfl⟩

theorem languageFrom_image (p : Nat) :
    (A.image h).languageFrom p = List.filterMap h '' A.languageFrom p := by
  ext w
  constructor
  · rintro ⟨q, hmapped, hq⟩
    obtain ⟨v, hrun, rfl⟩ := run_image_iff.mp hmapped
    exact ⟨v, ⟨q, hrun, (isTerminal_image q).symm.trans hq⟩, rfl⟩
  · rintro ⟨v, ⟨q, hrun, hq⟩, rfl⟩
    exact ⟨q, run_image_iff.mpr ⟨v, hrun, rfl⟩, (isTerminal_image q).trans hq⟩

theorem language_image : (A.image h).language = List.filterMap h '' A.language := by
  ext w
  simp only [mem_language, isInitial_image, languageFrom_image]
  constructor
  · rintro ⟨p, hp, v, hv, rfl⟩
    exact ⟨v, ⟨p, hp, hv⟩, rfl⟩
  · rintro ⟨v, ⟨p, hp, hv⟩, rfl⟩
    exact ⟨p, hp, v, hv, rfl⟩

/-- An image accepts the mapped words of the accepted ones. -/
theorem image_accepts_mapped_words (A : Automaton L) (h : L → Option K) (w : List K) :
    (A.image h).accepts w = true ↔ ∃ v, A.accepts v = true ∧ v.filterMap h = w := by
  simp only [accepts_iff_mem_language, language_image]
  exact Iff.rfl

/-- Letters may be merged, and what is erased may be repeated without being read. -/
example :
    let framed : Automaton Char :=
      .ofParts [⟨true, false⟩, ⟨false, false⟩, ⟨false, true⟩]
        [⟨0, some 'a', 1⟩, ⟨1, some 'b', 1⟩, ⟨1, some 'c', 2⟩]
    let merged := framed.image fun l => if l = 'b' then none else some 'x'
    merged.accepts ['x', 'x'] = true ∧ merged.accepts ['x'] = false ∧
      merged.accepts ['a', 'c'] = false := by
  decide +kernel

end Image

section Preimage

variable {domain : List K} {h : K → Option L} {k : Option K} {w : List K}

theorem isInitial_preimage (p : Nat) : (A.preimage domain h).isInitial p = A.isInitial p := by
  rw [preimage, isInitial_ofParts, any_initial_flags]

theorem isTerminal_preimage (p : Nat) : (A.preimage domain h).isTerminal p = A.isTerminal p := by
  rw [preimage, isTerminal_ofParts, any_terminal_flags]

theorem moves_preimage : (A.preimage domain h).Moves p k q ↔ PreimageMove A domain h p k q := by
  rw [preimage, moves_ofParts, List.mem_append, List.mem_flatMap, List.mem_flatMap, length_flags]
  simp only [mem_transitions, mem_states, List.mem_map, List.mem_filter, Option.isNone_iff_eq_none]
  constructor
  -- a transition is a copy of one of the automaton, or a loop on an erased letter
  · rintro ⟨⟨⟨_, label, _⟩, hmove, hmem⟩ | ⟨_, hp, k, ⟨hk, herased⟩, heq⟩, -, -⟩
    · cases label with
      | none =>
          cases List.mem_singleton.mp hmem
          exact .silent hmove
      | some l =>
          obtain ⟨k, hk, heq⟩ := List.mem_map.mp hmem
          obtain ⟨hk, hl⟩ := List.mem_filter.mp hk
          cases heq
          exact .read hk (beq_iff_eq.mp hl) hmove
    · cases heq
      exact .erased hk herased hp
  · intro hmove
    cases hmove with
    | silent hmove =>
        exact ⟨Or.inl ⟨⟨p, none, q⟩, hmove, List.mem_singleton_self _⟩, hmove.start_lt,
          hmove.target_lt⟩
    | @read _ _ l hk hl hmove =>
        refine ⟨Or.inl ⟨⟨p, some l, q⟩, hmove, ?_⟩, hmove.start_lt, hmove.target_lt⟩
        exact List.mem_map.mpr ⟨_, List.mem_filter.mpr ⟨hk, beq_iff_eq.mpr hl⟩, rfl⟩
    | erased hk herased hp =>
        exact ⟨Or.inr ⟨p, hp, _, ⟨hk, herased⟩, rfl⟩, hp, hp⟩

theorem mem_domain_of_run (hrun : Run (A.preimage domain h).Moves p w q) {k : K} (hk : k ∈ w) :
    k ∈ domain := by
  obtain ⟨_, _, hmove⟩ := hrun.exists_moves_of_mem hk
  cases moves_preimage.mp hmove with
  | read hk _ _ => exact hk
  | erased hk _ _ => exact hk

/-- A run of the preimage is a run of the automaton over the mapped word. -/
theorem run_of_run_preimage (hrun : Run (A.preimage domain h).Moves p w q) :
    Run A.Moves p (w.filterMap h) q := by
  refine hrun.filterMap h fun p k q hmove => ?_
  cases moves_preimage.mp hmove with
  | silent hmove => exact Run.single hmove
  | read _ hl hmove =>
      rw [Option.bind_some, hl]
      exact Run.single hmove
  | erased _ herased _ =>
      rw [Option.bind_some, herased]
      exact Run.done p

/-- A run of the automaton over the mapped word is taken by the preimage.  Before a letter that is
not erased the preimage moves silently as the automaton does, and erased letters are read where they
stand. -/
theorem run_preimage_of_run (hp : p < A.size) (hw : ∀ k ∈ w, k ∈ domain)
    (hrun : Run A.Moves p (w.filterMap h) q) : Run (A.preimage domain h).Moves p w q := by
  have hsilent {p q : Nat} (hrun : Run A.Moves p [] q) : Run (A.preimage domain h).Moves p [] q :=
    hrun.map_silently id fun p q hmove => moves_preimage.mpr (.silent hmove)
  -- on the word and not on the run, as erased letters are read between the moves of the run
  induction w generalizing p with
  | nil => exact hsilent hrun
  | cons k w ih =>
      obtain ⟨hk, hw⟩ := List.forall_mem_cons.mp hw
      cases hl : h k with
      | none =>
          rw [List.filterMap_cons_none hl] at hrun
          exact Run.read (moves_preimage.mpr (.erased hk hl hp)) (ih hp hw hrun)
      | some l =>
          rw [List.filterMap_cons_some hl, Run.cons_iff] at hrun
          obtain ⟨r, r', hfront, hmove, hrest⟩ := hrun
          exact (hsilent hfront).append
            (Run.read (moves_preimage.mpr (.read hk hl hmove)) (ih hmove.target_lt hw hrest))

theorem mem_languageFrom_preimage :
    w ∈ (A.preimage domain h).languageFrom p ↔
      (∀ k ∈ w, k ∈ domain) ∧ w.filterMap h ∈ A.languageFrom p := by
  constructor
  · rintro ⟨q, hrun, hq⟩
    exact ⟨fun k => mem_domain_of_run hrun, q, run_of_run_preimage hrun,
      (isTerminal_preimage q).symm.trans hq⟩
  · rintro ⟨hw, hmapped⟩
    have hp := lt_size_of_mem_languageFrom hmapped
    obtain ⟨q, hrun, hq⟩ := hmapped
    exact ⟨q, run_preimage_of_run hp hw hrun, (isTerminal_preimage q).trans hq⟩

theorem mem_language_preimage :
    w ∈ (A.preimage domain h).language ↔
      (∀ k ∈ w, k ∈ domain) ∧ w.filterMap h ∈ A.language := by
  simp only [mem_language, isInitial_preimage, mem_languageFrom_preimage]
  constructor
  · rintro ⟨p, hp, hw, hmapped⟩
    exact ⟨hw, p, hp, hmapped⟩
  · rintro ⟨hw, p, hp, hmapped⟩
    exact ⟨p, hp, hw, hmapped⟩

/-- A preimage accepts the words over the domain whose mapped words are accepted. -/
theorem preimage_accepts_words_mapped_to_accepted (A : Automaton L) (domain : List K)
    (h : K → Option L) (w : List K) :
    (A.preimage domain h).accepts w = true ↔
      (∀ k ∈ w, k ∈ domain) ∧ A.accepts (w.filterMap h) = true := by
  simp only [accepts_iff_mem_language, mem_language_preimage]

/-- Several letters may be mapped to the same one, and erased letters may stand anywhere.  Letters
that are not in the domain are not read, whatever they are mapped to. -/
example :
    let mapped : Char → Option Char := fun k => if k = 'x' ∨ k = 'y' then some 'a' else none
    let words := ((letter 'a').concatenation (letter 'a')).preimage ['x', 'y', 'z', 'x'] mapped
    words.accepts ['z', 'x', 'z', 'y'] = true ∧ words.accepts ['y', 'y'] = true ∧
      words.accepts ['z', 'x'] = false ∧ words.accepts ['x', 'v', 'y'] = false := by
  decide +kernel

end Preimage

end Automaton

end FiniteState
