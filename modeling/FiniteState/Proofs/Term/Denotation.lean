import FiniteState.Proofs.Term.Meaning
import FiniteState.Proofs.Term.Unambiguous
/-!
What a text means.  If the tokens of a stream are read without an error, they stand for exactly
one term, and the automaton that is built accepts the language that this term denotes.
-/

namespace FiniteState

universe u

variable {L : Type u} [Label L]

/-- The term that is read is the only one that the tokens in front of the end stand for. -/
theorem TokenStream.derives_of_parse {s : TokenStream L} {t : Term L} (h : s.parse = .ok t) :
    Derives .sum s.body t ∧ ∀ t', Derives .sum s.body t' → t' = t := by
  obtain ⟨p, hread, hfinish⟩ := Parser.readAll_of_run h
  constructor
  · exact (Parser.hasRead_begin.readAll hread).finish hfinish
  · exact fun t' ht' => Parser.eq_of_derives_of_readAll ht' hread hfinish

/-- The automaton of a stream that is read without an error accepts exactly what its tokens
denote. -/
theorem parsed_automaton_accepts_denoted_language (s : TokenStream L) (A : Automaton L)
    (h : s.parse.map Term.automaton = .ok A) :
    ∃ t, Derives .sum s.body t ∧ (∀ t', Derives .sum s.body t' → t' = t) ∧
      ∀ w, A.accepts w = true ↔ w ∈ t.language := by
  cases hparse : s.parse with
  | error e =>
      rw [hparse] at h
      cases h
  | ok t =>
      rw [hparse] at h
      cases h
      obtain ⟨hderives, hunique⟩ := TokenStream.derives_of_parse hparse
      refine ⟨t, hderives, hunique, fun w => ?_⟩
      rw [Automaton.accepts_iff_mem_language, t.language_automaton]

/-- The tokens of `a2|b+c`. -/
def sampleStream : TokenStream Char :=
  .ofList [(.letter 'a', 1), (.number 2, 1), (.shuffle, 1), (.letter 'b', 1), (.plus, 1),
    (.letter 'c', 1)]

/-- In `a2|b+c` the number binds before the interleaving, and the interleaving before the union. -/
theorem sample_automaton_accepts_denoted_language :
    sampleStream.parse.map Term.automaton =
        .ok (Term.union (.shuffle (.power (.letter 'a') 2) (.letter 'b')) (.letter 'c')).automaton ∧
      ∃ t, Derives .sum sampleStream.body t ∧ (∀ t', Derives .sum sampleStream.body t' → t' = t) ∧
        ∀ w, (Term.union (.shuffle (.power (.letter 'a') 2) (.letter 'b'))
          (.letter 'c')).automaton.accepts w = true ↔ w ∈ t.language :=
  ⟨rfl, parsed_automaton_accepts_denoted_language sampleStream _ rfl⟩

end FiniteState
