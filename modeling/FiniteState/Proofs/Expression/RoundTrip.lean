import FiniteState.Proofs.Expression.Kleene
import FiniteState.Proofs.Expression.Simplified
import FiniteState.Proofs.Token.Letters
/-!
Printed expressions are read back.  What is read denotes the language of the expression, with every
letter replaced by the one that its text is read as, provided that parentheses are not nested too
deeply and that numbers stand in front.  What elimination gives always has numbers in front.
-/

namespace FiniteState

universe u v

variable {L : Type u} {K : Type v}

namespace Expression

section Reading

variable [Shown L] [Shown K] {lexicon : Lexicon K} {spaced : Bool} {adheres : Char → Bool}
  {name : L → K} {e : Expression L}

/-- The text of an expression is read as a term with its language if there is room for the
parentheses, and otherwise a parenthesis is blamed. -/
theorem exists_term_of_text (hset : Separates spaced adheres)
    (hlegible : ∀ l ∈ e.letters, Legible lexicon spaced adheres l (name l))
    (he : e.NumbersInFront) :
    ∃ t : Term K, t.language = Language.map name e.language ∧
      (Text.nesting (textAt spaced .sum e) ≤ maxNesting →
        (TokenStream.ofText lexicon (textAt spaced .sum e)).parse = .ok t) ∧
      (maxNesting < Text.nesting (textAt spaced .sum e) →
        (TokenStream.ofText lexicon (textAt spaced .sum e)).parse =
          .error (.unexpected 1 (shown (Token.leftParen : Token K)) .shallower)) := by
  obtain ⟨t, hderives, hlanguage⟩ := exists_derives_tokensAt name he .sum
  have hnesting : Text.nesting (textAt spaced .sum e) = Token.nesting (tokensAt name .sum e) := by
    rw [Text.nesting, Token.nesting, parens_textAt hlegible .sum]
  rw [(reads_textAt hset hlegible he .sum).ofText_eq, hnesting]
  exact ⟨t, hlanguage, TokenStream.parse_line_of_derives hderives 1 1⟩

end Reading

section Characters

variable [Shown L] {e : Expression L} {l : L} {w : List Char} {v : List L}

/-- The character that a text starts with. -/
def firstCharacter (text : String) : Char :=
  text.toList.headD ' '

theorem separates_characters : Separates false Char.isDigit where
  digit _ hc := hc
  plus := rfl
  star := rfl
  rightParen := rfl
  gap := rfl

theorem legible_character (h : readsAsLetter (shown l) = true) :
    Legible Lexicon.characters false Char.isDigit l (firstCharacter (shown l)) := by
  obtain ⟨c, htext, hblank, hoperator, hdigit, hcontrol⟩ := Scanner.readsAsLetter_iff.mp h
  rw [firstCharacter, htext, List.headD_cons]
  refine ⟨by simp [htext], ?_, ?_, ?_⟩
  · rw [htext]
    exact fun _ _ => Scanner.takes_character hblank hoperator hdigit hcontrol
  · rw [htext]
    exact fun _ => Scanner.avoids_cons hdigit
  · rw [htext]
    refine Paren.filterMap_ofChar?_eq_nil fun d hd => ?_
    obtain rfl := List.mem_singleton.mp hd
    constructor
    · rintro rfl
      exact hoperator (by decide)
    · rintro rfl
      exact hoperator (by decide)

omit [Shown L] in
theorem mem_letters_of_mem_language (hv : v ∈ e.language) : ∀ l ∈ v, l ∈ e.letters := by
  induction e generalizing v with
  | zero => exact absurd hv (Language.notMem_zero v)
  | one =>
      obtain rfl := Language.mem_one v |>.mp hv
      simp
  | letter a =>
      obtain rfl := Set.mem_singleton_iff.mp hv
      exact fun l hl => hl
  | sum left right ihl ihr =>
      intro l hl
      rcases (Language.mem_add _ _ _).mp hv with hv | hv
      · exact List.mem_append_left _ (ihl hv l hl)
      · exact List.mem_append_right _ (ihr hv l hl)
  | product left right ihl ihr =>
      intro l hl
      obtain ⟨u, hu, w, hw, rfl⟩ := Language.mem_mul.mp hv
      rcases List.mem_append.mp hl with hl | hl
      · exact List.mem_append_left _ (ihl hu l hl)
      · exact List.mem_append_right _ (ihr hw l hl)
  | iteration body ih =>
      intro l hl
      obtain ⟨words, rfl, hwords⟩ := Language.mem_kstar.mp hv
      obtain ⟨word, hword, hl⟩ := List.mem_flatten.mp hl
      exact ih (hwords word hword) l hl

/-- A word over characters belongs to the image of a language if it is shown like one of its
words. -/
theorem mem_map_firstCharacter_iff (h : ∀ l ∈ e.letters, readsAsLetter (shown l) = true) :
    w ∈ Language.map (fun l => firstCharacter (shown l)) e.language ↔
      ∃ v ∈ e.language, v.map shown = w.map shown := by
  constructor
  · intro hw
    obtain ⟨v, hv, rfl⟩ := hw
    refine ⟨v, hv, ?_⟩
    rw [List.map_map]
    apply List.map_congr_left
    intro l hl
    obtain ⟨c, htext, -⟩ := Scanner.readsAsLetter_iff.mp (h l (mem_letters_of_mem_language hv l hl))
    apply String.toList_inj.mp
    rw [Function.comp_apply, firstCharacter, htext, List.headD_cons]
    exact (String.toList_singleton c).symm
  · intro hw
    obtain ⟨v, hv, hshown⟩ := hw
    refine ⟨v, hv, ?_⟩
    have hfirst (c : Char) : firstCharacter (shown c) = c := by
      rw [firstCharacter, show (shown c).toList = [c] from String.toList_singleton c,
        List.headD_cons]
    have hwords := congrArg (List.map firstCharacter) hshown
    rw [List.map_map, List.map_map] at hwords
    have hself : w.map (firstCharacter ∘ shown) = w := by
      rw [show firstCharacter ∘ shown = id from funext hfirst, List.map_id]
    exact hwords.trans hself

/-- A text of letters that are single characters is read back if there is room for its parentheses,
and otherwise a parenthesis is blamed. -/
theorem parse_text (hletters : ∀ l ∈ e.letters, readsAsLetter (shown l) = true)
    (he : e.NumbersInFront) :
    (Text.nesting e.text ≤ maxNesting → ∃ B, parse e.text = .ok B ∧
        ∀ w : List Char, B.accepts w = true ↔ ∃ v ∈ e.language, v.map shown = w.map shown) ∧
      (maxNesting < Text.nesting e.text →
        parse e.text =
          .error (.unexpected 1 (shown (Token.leftParen : Token Char)) .shallower)) := by
  obtain ⟨t, hlanguage, hfits, hdeep⟩ := exists_term_of_text separates_characters
    (fun l hl => legible_character (hletters l hl)) he
  constructor
  · intro hnesting
    refine ⟨t.automaton, by rw [parse, text, hfits hnesting]; rfl, fun w => ?_⟩
    rw [Automaton.accepts_iff_mem_language, t.language_automaton, hlanguage,
      mem_map_firstCharacter_iff hletters]
  · intro hnesting
    rw [parse, text, hdeep hnesting]
    rfl

end Characters

end Expression

section Spelling

variable [Label L] {A : Automaton L} {text : String}

/-- The text of an automaton is that of its expression, all letters of which are read back. -/
theorem Automaton.spelling_eq_ok_iff :
    A.spelling = .ok text ↔ ∃ e, A.expression = .ok e ∧ text = e.text ∧
      ∀ l ∈ e.letters, readsAsLetter (shown l) = true := by
  constructor
  · intro h
    unfold spelling at h
    split at h
    · cases h
    · rename_i e he
      split at h
      · cases h
      · rename_i hfind
        cases h
        refine ⟨e, he, rfl, fun l hl => ?_⟩
        simpa using List.find?_eq_none.mp hfind (shown l) (List.mem_map_of_mem hl)
  · intro h
    obtain ⟨e, he, rfl, hletters⟩ := h
    have hfind : (e.letters.map shown).find? (fun text => !readsAsLetter text) = none := by
      rw [List.find?_eq_none]
      intro text htext
      obtain ⟨l, hl, rfl⟩ := List.mem_map.mp htext
      simp [hletters l hl]
    rw [spelling, he]
    simp only [hfind]

/-- The text of an automaton is read back as an automaton for its language, with every label
replaced by the character that it is shown as, if its parentheses are not nested too deeply. -/
theorem spelling_is_read_back (A : Automaton L) (text : String) (h : A.spelling = .ok text)
    (hnesting : Text.nesting text ≤ maxNesting) :
    ∃ B, parse text = .ok B ∧ ∀ w : List Char, B.accepts w = true ↔
      ∃ v, A.accepts v = true ∧ v.map shown = w.map shown := by
  obtain ⟨e, he, rfl, hletters⟩ := Automaton.spelling_eq_ok_iff.mp h
  have hfront := (Automaton.simplified_of_expression_eq he).numbersInFront
  obtain ⟨B, hparse, haccepts⟩ := (Expression.parse_text hletters hfront).1 hnesting
  refine ⟨B, hparse, fun w => ?_⟩
  simp only [haccepts, Automaton.language_of_expression_eq he, Automaton.accepts_iff_mem_language]

/-- The automaton that reads `a`, then any number of `b` and `c`, and then stops silently. -/
def choiceSample : Automaton Char :=
  .ofParts [⟨true, false⟩, ⟨false, false⟩, ⟨false, true⟩]
    [⟨0, some 'a', 1⟩, ⟨1, some 'b', 1⟩, ⟨1, some 'c', 1⟩, ⟨1, none, 2⟩]

/-- The text `a(b+c)*` with one pair of parentheses is read back. -/
theorem spelling_of_choiceSample_is_read_back :
    choiceSample.spelling = .ok "a(b+c)*" ∧ Text.nesting "a(b+c)*" ≤ maxNesting ∧
      ∃ B, parse "a(b+c)*" = .ok B ∧ ∀ w : List Char, B.accepts w = true ↔
        ∃ v, choiceSample.accepts v = true ∧ v.map shown = w.map shown :=
  ⟨rfl, by decide, spelling_is_read_back choiceSample _ rfl (by decide)⟩

/-- The text of an expression with readable letters is read back as an automaton for its language if
its parentheses are not nested too deeply and numbers stand in front. -/
theorem displayed_expression_is_read_back (e : Expression L)
    (hletters : ∀ l ∈ e.letters, readsAsLetter (shown l) = true) (hfront : e.NumbersInFront)
    (hnesting : Text.nesting e.text ≤ maxNesting) :
    ∃ B, parse e.text = .ok B ∧ ∀ w : List Char, B.accepts w = true ↔
      ∃ v, e.automaton.accepts v = true ∧ v.map shown = w.map shown := by
  obtain ⟨B, hparse, haccepts⟩ := (Expression.parse_text hletters hfront).1 hnesting
  refine ⟨B, hparse, fun w => ?_⟩
  simp only [haccepts, Automaton.accepts_iff_mem_language, e.language_automaton]

/-- The expression that is displayed as `0a+(1+b)*`. -/
def numbersSample : Expression Char :=
  .sum (.product .zero (.letter 'a')) (.iteration (.sum .one (.letter 'b')))

/-- In `0a+(1+b)*` the numbers stand in front. -/
theorem numbersSample_is_read_back :
    (∀ l ∈ numbersSample.letters, readsAsLetter (shown l) = true) ∧ numbersSample.NumbersInFront ∧
      Text.nesting numbersSample.text ≤ maxNesting ∧
      ∃ B, parse numbersSample.text = .ok B ∧ ∀ w : List Char, B.accepts w = true ↔
        ∃ v, numbersSample.automaton.accepts v = true ∧ v.map shown = w.map shown := by
  have hletters : ∀ l ∈ numbersSample.letters, readsAsLetter (shown l) = true :=
    List.all_eq_true.mp rfl
  have hfront : numbersSample.NumbersInFront := ⟨⟨trivial, trivial, rfl⟩, trivial, trivial⟩
  have hnesting : Text.nesting numbersSample.text ≤ maxNesting := by decide
  exact ⟨hletters, hfront, hnesting,
    displayed_expression_is_read_back numbersSample hletters hfront hnesting⟩

/-- Behind a factor a number is misread: `a0` stands for the empty word although the product that is
displayed like this is empty, and in `11` there is no product at all. -/
theorem numbers_behind_factors_are_misread :
    ((Expression.product (.letter 'a') .zero).text = "a0" ∧
      (Expression.product (.letter 'a') .zero).automaton.accepts [] = false ∧
      ∃ B, parse "a0" = .ok B ∧ B.accepts [] = true) ∧
    (Expression.product .one .one : Expression Char).text = "11" ∧
      parse "11" = .error (.unexpected 1 "number 11" .atom) :=
  ⟨⟨rfl, rfl, _, rfl, rfl⟩, rfl, rfl⟩

end Spelling

end FiniteState
