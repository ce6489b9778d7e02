import FiniteState.Proofs.Expression.RoundTrip
/-!
Expressions over identifiers are read back from the text in which spaces separate the factors.  An
identifier would swallow letters and digits behind it, but a space or an operator always ends it.
-/

namespace FiniteState

namespace Expression

/-- What would continue an identifier or a number. -/
def continuesWord (c : Char) : Bool :=
  c.isDigit || Lexicon.continuesIdentifier c

theorem separates_identifiers : Separates true continuesWord where
  digit c hc := by rw [continuesWord, hc, Bool.true_or]
  plus := by decide +kernel
  star := by decide +kernel
  rightParen := by decide +kernel
  gap := by decide +kernel

theorem continuesIdentifier_of_starts {c : Char} (h : Lexicon.startsIdentifier c = true) :
    Lexicon.continuesIdentifier c = true := by
  simp only [Lexicon.startsIdentifier, Lexicon.continuesIdentifier, Text.isAlphanumeric,
    Bool.or_eq_true] at h ⊢
  exact h.imp_left Or.inl

theorem legible_identifier {l : String} (h : Lexicon.identifiers.ReadsAs l l) :
    Legible Lexicon.identifiers true continuesWord l (id l) := by
  obtain ⟨c, cs, htext, hc, hcs⟩ := Scanner.identifier_of_readsAs h
  have htext' : (shown l).toList = c :: cs := htext
  refine ⟨by simp [htext'], ?_, by simp, ?_⟩
  · intro rest hrest
    have hl : id l = String.ofList (c :: cs) := by rw [← htext, String.ofList_toList, id]
    rw [htext', hl]
    refine Scanner.takes_identifier hc hcs fun d hd => ?_
    exact (Bool.or_eq_false_iff.mp (hrest d hd)).2
  · rw [htext']
    refine Paren.filterMap_ofChar?_eq_nil fun d hd => ?_
    have hd : Lexicon.continuesIdentifier d = true := by
      rcases List.mem_cons.mp hd with rfl | hd
      · exact continuesIdentifier_of_starts hc
      · exact hcs d hd
    constructor
    · rintro rfl
      exact absurd hd (by decide +kernel)
    · rintro rfl
      exact absurd hd (by decide +kernel)

end Expression

/-- A normal automaton whose labels are identifiers has an expression, and the text of the
expression with spaces between factors is read back as an automaton for the same language if its
parentheses are not nested too deeply. -/
theorem spaced_text_is_read_back (A : Automaton String) (i t : Nat) (h : A.Normal i t)
    (hlabels : ∀ l ∈ A.alphabet, Lexicon.identifiers.ReadsAs l l) :
    ∃ e, A.expression = .ok e ∧ (Text.nesting e.spacedText ≤ maxNesting →
      ∃ B, (TokenStream.ofText Lexicon.identifiers e.spacedText).parse.map Term.automaton = .ok B ∧
        ∀ w, B.accepts w = A.accepts w) := by
  obtain ⟨e, he⟩ := h.exists_expression
  refine ⟨e, he, fun hnesting => ?_⟩
  have hlegible : ∀ l ∈ e.letters,
      Expression.Legible Lexicon.identifiers true Expression.continuesWord l (id l) :=
    fun l hl => Expression.legible_identifier
      (hlabels l (Automaton.mem_alphabet_of_mem_letters he l hl))
  obtain ⟨term, hlanguage, hfits, -⟩ := Expression.exists_term_of_text
    Expression.separates_identifiers hlegible
    (Automaton.simplified_of_expression_eq he).numbersInFront
  refine ⟨term.automaton, by rw [Expression.spacedText, hfits hnesting]; rfl, fun w => ?_⟩
  rw [Bool.eq_iff_iff, Automaton.accepts_iff_mem_language, Automaton.accepts_iff_mem_language,
    term.language_automaton, hlanguage, Language.map_id, Automaton.language_of_expression_eq he]

/-- The automaton that sends, and sends again after every `nack`. -/
def protocolSample : Automaton String :=
  .ofParts [⟨true, false⟩, ⟨false, false⟩, ⟨false, false⟩, ⟨false, true⟩]
    [⟨0, some "send", 1⟩, ⟨1, some "ack", 1⟩, ⟨1, some "nack", 2⟩, ⟨2, some "send", 1⟩,
      ⟨1, none, 3⟩]

/-- The text `send ack*+send ack* nack (send ack* nack)* send ack*` is read back. -/
theorem spaced_text_of_protocolSample_is_read_back :
    protocolSample.Normal 0 3 ∧ (∀ l ∈ protocolSample.alphabet, Lexicon.identifiers.ReadsAs l l) ∧
      Text.nesting "send ack*+send ack* nack (send ack* nack)* send ack*" ≤ maxNesting ∧
      ∃ B, (TokenStream.ofText Lexicon.identifiers
          "send ack*+send ack* nack (send ack* nack)* send ack*").parse.map Term.automaton =
          .ok B ∧ ∀ w, B.accepts w = protocolSample.accepts w := by
  have hnormal : protocolSample.Normal 0 3 := Automaton.endpoints_eq_ok_iff.mp rfl
  have halphabet : protocolSample.alphabet.toList = ["ack", "nack", "send"] := by decide +kernel
  have hlabels : ∀ l ∈ protocolSample.alphabet, Lexicon.identifiers.ReadsAs l l := by
    intro l hl
    rw [← OrderedSet.mem_toList, halphabet] at hl
    simp only [List.mem_cons, List.not_mem_nil, or_false] at hl
    rcases hl with rfl | rfl | rfl <;> rfl
  obtain ⟨e, he, hread⟩ := spaced_text_is_read_back protocolSample 0 3 hnormal hlabels
  have htext : e.spacedText = "send ack*+send ack* nack (send ack* nack)* send ack*" := by
    cases he
    rfl
  have hnesting : Text.nesting e.spacedText ≤ maxNesting := by
    rw [htext]
    decide
  exact ⟨hnormal, hlabels, htext ▸ hnesting, htext ▸ hread hnesting⟩

end FiniteState
