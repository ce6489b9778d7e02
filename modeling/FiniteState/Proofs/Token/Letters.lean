import FiniteState.Expression.Elimination
import FiniteState.Proofs.Token.Spelling
/-!
Texts that are read as one letter.  Among single characters these are the ones that are neither
blanks nor operators, digits or control characters; among longer texts they are the identifiers.
-/

namespace FiniteState

universe u

variable {L : Type u}

/-- The text is read as the letter `l` and as nothing else. -/
def Lexicon.ReadsAs (lexicon : Lexicon L) (text : String) (l : L) : Prop :=
  TokenStream.ofText lexicon text = ⟨[(.letter l, 1)], .ok 1⟩

namespace Scanner

variable {lexicon : Lexicon L} {s s' : Scanner} {c : Char} {cs rest : List Char} {l : L}
  {text : String} {line : Nat}

section Next

theorem rest_skipFrom (line : Nat) (cs : List Char) :
    (skipFrom line cs).rest = cs.dropWhile Text.isBlank := by
  induction cs generalizing line with
  | nil => rfl
  | cons c cs ih =>
      rw [skipFrom, List.dropWhile_cons]
      split
      · exact ih _
      · rfl

theorem operator?_ne_letter : operator? c ≠ some (.letter l) := by
  unfold operator?
  split <;> simp

theorem mem_operators_iff : c ∈ operators ↔ (operator? (L := L) c).isSome = true := by
  constructor
  · intro h
    simp only [operators, List.mem_cons, List.not_mem_nil, or_false] at h
    rcases h with rfl | rfl | rfl | rfl | rfl | rfl | rfl <;> rfl
  · intro h
    obtain ⟨token, htoken⟩ := Option.isSome_iff_exists.mp h
    exact mem_operators htoken

/-- A letter is read where the lexicon finds one behind the blanks. -/
theorem lexicon_of_next (h : next lexicon s = (.ok (.letter l, line), s')) :
    ∃ c rest, s.rest.dropWhile Text.isBlank = c :: rest ∧ c ∉ operators ∧ c.isDigit = false ∧
      lexicon c rest = (some l, s'.rest) := by
  have hrest : s.skipBlanks.rest = s.rest.dropWhile Text.isBlank := rest_skipFrom _ _
  simp only [next] at h
  split at h
  · cases h
  · rename_i c rest hs
    rw [hrest] at hs
    refine ⟨c, rest, hs, ?_⟩
    split at h
    · rename_i hoperator
      cases h
      exact absurd hoperator operator?_ne_letter
    · rename_i hoperator
      have hnot : c ∉ operators := by
        rw [mem_operators_iff (L := L), hoperator]
        simp
      split at h
      · split at h <;> cases h
      · rename_i hdigit
        split at h
        · rename_i hlexicon
          cases h
          exact ⟨hnot, by simpa using hdigit, hlexicon⟩
        · cases h

theorem next_of_readsAs (h : lexicon.ReadsAs text l) :
    ∃ s', next lexicon (ofText text) = (.ok (.letter l, 1), s') := by
  have htokens := congrArg TokenStream.tokens h
  simp only [TokenStream.ofText, streamFrom] at htokens
  split at htokens
  · cases htokens
  · cases htokens
  · rename_i entry s' _ hnext
    rw [(List.cons.inj htokens).1] at hnext
    exact ⟨s', hnext⟩

end Next

section Characters

theorem readsAsLetter_iff :
    readsAsLetter text = true ↔ ∃ c, text.toList = [c] ∧ Text.isBlank c = false ∧
      c ∉ operators ∧ c.isDigit = false ∧ Text.isControl c = false := by
  unfold readsAsLetter
  split
  · rename_i c htext
    simp [htext, mem_operators_iff (L := Char), and_assoc]
  · rename_i hnot
    simp only [Bool.false_eq_true, false_iff]
    intro h
    obtain ⟨c, htext, -⟩ := h
    exact hnot c htext

theorem takes_character (hblank : Text.isBlank c = false) (hoperator : c ∉ operators)
    (hdigit : c.isDigit = false) (hcontrol : Text.isControl c = false) :
    Takes Lexicon.characters [c] (.letter c) rest := by
  apply takes_letter hblank hoperator hdigit
  simp [Lexicon.characters, hcontrol]

/-- The check of a text agrees with reading it. -/
theorem readsAsLetter_iff_readsAs :
    readsAsLetter text = true ↔ ∃ c, text.toList = [c] ∧ Lexicon.characters.ReadsAs text c := by
  rw [readsAsLetter_iff]
  constructor
  · intro h
    obtain ⟨c, htext, hblank, hoperator, hdigit, hcontrol⟩ := h
    have hreads : Reads Lexicon.characters (fun _ => false) text.toList [.letter c] := by
      rw [htext]
      exact .piece (fun _ _ => takes_character hblank hoperator hdigit hcontrol) (by simp)
    exact ⟨c, htext, hreads.ofText_eq⟩
  · intro h
    obtain ⟨c, htext, hreads⟩ := h
    obtain ⟨s', hnext⟩ := next_of_readsAs hreads
    obtain ⟨d, rest, hdrop, hoperator, hdigit, hlexicon⟩ := lexicon_of_next hnext
    rw [show (ofText text).rest = [c] from htext, List.dropWhile_cons] at hdrop
    split at hdrop
    · cases hdrop
    · rename_i hblank
      cases hdrop
      refine ⟨c, htext, by simpa using hblank, hoperator, hdigit, ?_⟩
      by_contra hcontrol
      rw [Lexicon.characters, if_pos (by simpa using hcontrol)] at hlexicon
      cases hlexicon

end Characters

section Identifiers

theorem startsIdentifier_of_isBlank (h : Text.isBlank c = true) :
    Lexicon.startsIdentifier c = false := by
  have hunderscore : c ≠ '_' := by
    rintro rfl
    exact absurd h (by decide)
  simp [Lexicon.startsIdentifier, Text.isAlphabetic_of_isBlank h, hunderscore]

theorem continuesIdentifier_of_isBlank (h : Text.isBlank c = true) :
    Lexicon.continuesIdentifier c = false := by
  have hunderscore : c ≠ '_' := by
    rintro rfl
    exact absurd h (by decide)
  simp [Lexicon.continuesIdentifier, Text.isAlphanumeric, Text.isAlphabetic_of_isBlank h,
    Text.isNumeric_of_isBlank h, hunderscore]

theorem startsIdentifier_of_isDigit (h : c.isDigit = true) :
    Lexicon.startsIdentifier c = false := by
  have hunderscore : c ≠ '_' := by
    rintro rfl
    exact absurd h (by decide)
  simp [Lexicon.startsIdentifier, Text.isAlphabetic_of_isDigit h, hunderscore]

theorem takes_identifier (hc : Lexicon.startsIdentifier c = true)
    (hcs : ∀ d ∈ cs, Lexicon.continuesIdentifier d = true)
    (hrest : Avoids Lexicon.continuesIdentifier rest) :
    Takes Lexicon.identifiers (c :: cs) (.letter (String.ofList (c :: cs))) rest := by
  have hblank : Text.isBlank c = false := Text.eq_false_of_excludes startsIdentifier_of_isBlank hc
  have hdigit : c.isDigit = false := Text.eq_false_of_excludes startsIdentifier_of_isDigit hc
  have hoperator : c ∉ operators := notMem_operators (by decide +kernel) hc
  apply takes_letter hblank hoperator hdigit
  have hstop : rest.takeWhile Lexicon.continuesIdentifier = [] ∧
      rest.dropWhile Lexicon.continuesIdentifier = rest := by
    cases rest with
    | nil => exact ⟨rfl, rfl⟩
    | cons d rest =>
        have hd := hrest d rfl
        simp [hd]
  rw [Lexicon.identifiers, if_pos hc, List.takeWhile_append_of_pos hcs,
    List.dropWhile_append_of_pos hcs, hstop.1, hstop.2, List.append_nil]

/-- A text that is read as itself is an identifier. -/
theorem identifier_of_readsAs {l : String} (h : Lexicon.identifiers.ReadsAs l l) :
    ∃ c cs, l.toList = c :: cs ∧ Lexicon.startsIdentifier c = true ∧
      ∀ d ∈ cs, Lexicon.continuesIdentifier d = true := by
  obtain ⟨s', hnext⟩ := next_of_readsAs h
  obtain ⟨c, rest, hdrop, -, -, hlexicon⟩ := lexicon_of_next hnext
  unfold Lexicon.identifiers at hlexicon
  split at hlexicon
  · rename_i hc
    have hl := Option.some.inj (Prod.mk.inj hlexicon).1
    have hlist : l.toList = c :: rest.takeWhile Lexicon.continuesIdentifier := by
      rw [← hl, String.toList_ofList]
    refine ⟨c, rest.takeWhile Lexicon.continuesIdentifier, hlist, hc, ?_⟩
    intro d hd
    exact List.all_eq_true.mp List.all_takeWhile d hd
  · cases (Prod.mk.inj hlexicon).1

end Identifiers

end Scanner

end FiniteState
