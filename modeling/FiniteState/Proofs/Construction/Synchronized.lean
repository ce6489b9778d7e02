import FiniteState.Construction.Regular
import FiniteState.Proofs.Construction.Product
import FiniteState.Proofs.Construction.ReachablePart
/-!
Products as synchronized systems.  Two automata that run side by side form a transition system on
the pairs of their states, whatever the synchronization is.  A product is the reachable part of that
system, and accepts what is merged from accepted words.  With no labels synchronized the merged
words are the interleavings, with the common labels synchronized those with accepted projections,
and with all labels synchronized the common words.
-/

namespace FiniteState

universe u

variable {L : Type u} [Label L]

/-- Two automata side by side.  Both start together, and the pair is terminal if both are. -/
def synchronizedSystem (A B : Automaton L) (s : Synchronization L) :
    TransitionSystem L (Nat × Nat) where
  initial := fun (p, q) => A.isInitial p = true ∧ B.isInitial q = true
  terminal := fun (p, q) => A.isTerminal p = true ∧ B.isTerminal q = true
  moves := SynchronizedMove A B s

namespace Automaton

theorem lists_synchronizedSystem (A B : Automaton L) (s : Synchronization L) :
    (productGraph A B (mixMoves A B s)).Lists (synchronizedSystem A B s) := by
  constructor
  · exact fun _ => mem_starts_productGraph
  · exact fun _ => Bool.and_eq_true_iff
  · exact fun _ => Bool.and_eq_true_iff
  · exact fun _ _ _ => mem_mixMoves

/-- The pair of states that a state of a product stands for. -/
def pairOf (A B : Automaton L) (s : Synchronization L) :
    Fin (A.mixWith B s).size ≃ { pair // (synchronizedSystem A B s).Reachable pair } :=
  (bounded_mix A B s).nodeOf (lists_synchronizedSystem A B s)

theorem isReachablePart_mixWith (A B : Automaton L) (s : Synchronization L) :
    (synchronizedSystem A B s).IsReachablePart (A.mixWith B s) (A.pairOf B s) :=
  (bounded_mix A B s).isReachablePart (lists_synchronizedSystem A B s)

/-- A product accepts the words that are merged from accepted words, and is the reachable part of
the two automata side by side. -/
theorem mixWith_is_synchronized_product (A B : Automaton L) (s : Synchronization L) :
    (∀ w, (A.mixWith B s).accepts w = true ↔
      ∃ u v, A.accepts u = true ∧ B.accepts v = true ∧ s.Merges u v w) ∧
    (synchronizedSystem A B s).IsReachablePart (A.mixWith B s) (A.pairOf B s) := by
  refine ⟨fun w => ?_, isReachablePart_mixWith A B s⟩
  simp only [accepts_iff_mem_language]
  rw [mem_language_mixWith]
  constructor
  · rintro ⟨u, hu, v, hv, hmerge⟩
    exact ⟨u, v, hu, hv, hmerge⟩
  · rintro ⟨u, v, hu, hv, hmerge⟩
    exact ⟨u, hu, v, hv, hmerge⟩

/-- A joint label may also be given for labels that do not synchronize.  These are then read alone
as well as together. -/
example :
    let meeting : Synchronization Char := ⟨fun _ => false, fun _ _ => some 't'⟩
    let product := (letter 'a').mixWith (letter 'b') meeting
    product.accepts ['a', 'b'] = true ∧ product.accepts ['t'] = true ∧
      product.accepts ['a'] = false := by
  decide +kernel

/-- A shuffle accepts the interleavings of accepted words.  Each letter of both words occurs in
them, also where the words have letters in common. -/
theorem shuffle_accepts_interleavings (A B : Automaton L) (w : List L) :
    ((A.shuffle B).accepts w = true ↔
      ∃ u v, A.accepts u = true ∧ B.accepts v = true ∧ Interleaves u v w) ∧
    ∀ u v, Interleaves u v w → w.Perm (u ++ v) := by
  refine ⟨?_, fun u v h => h.perm⟩
  simp only [accepts_iff_mem_language]
  rw [mem_language_shuffle]
  constructor
  · rintro ⟨u, hu, v, hv, hinterleaves⟩
    exact ⟨u, v, hu, hv, hinterleaves⟩
  · rintro ⟨u, v, hu, hv, hinterleaves⟩
    exact ⟨u, hu, v, hv, hinterleaves⟩

/-- A letter that both automata read is read twice. -/
example :
    let both := (letter 'a').shuffle ((letter 'a').concatenation (letter 'b'))
    both.accepts ['a', 'a', 'b'] = true ∧ both.accepts ['a', 'b', 'a'] = true ∧
      both.accepts ['a', 'b'] = false ∧ both.accepts ['b', 'a', 'a'] = false := by
  decide +kernel

/-- A mix accepts the words over both alphabets whose projections are accepted, where labels that no
accepted word uses belong to the alphabet; an intersection accepts what both automata accept. -/
theorem mix_accepts_by_projections (A B : Automaton L) (w : List L) :
    (∀ l, (l ∈ A.alphabet ↔ ∃ p p', A.Moves p (some l) p') ∧
      (l ∈ B.alphabet ↔ ∃ q q', B.Moves q (some l) q')) ∧
    ((A.mix B).accepts w = true ↔
      (∀ l ∈ w, l ∈ A.alphabet ∨ l ∈ B.alphabet) ∧
        A.accepts (w.filter A.alphabet.contains) = true ∧
        B.accepts (w.filter B.alphabet.contains) = true) ∧
    ((A.intersection B).accepts w = true ↔ A.accepts w = true ∧ B.accepts w = true) := by
  simp only [accepts_iff_mem_language]
  exact ⟨fun _ => ⟨mem_alphabet, mem_alphabet⟩, mem_language_mix, mem_language_intersection⟩

/-- A label that only leads astray still has to be read together, so it cannot be read at all. -/
example :
    let blocking : Automaton Char := .ofParts [⟨true, true⟩, ⟨false, false⟩] [⟨0, some 'b', 1⟩]
    blocking.accepts [] = true ∧ ((word ['b']).mix blocking).accepts ['b'] = false ∧
      ((word ['b']).shuffle blocking).accepts ['b'] = true := by
  decide +kernel

end Automaton

end FiniteState
