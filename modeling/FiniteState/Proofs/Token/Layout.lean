import FiniteState.Proofs.Token.Letters
import Mathlib.Data.List.Count
/-!
Tokens that are written out with blanks between them.  A blank ends every token, so the text is read
as these tokens again, and as the end of the text forever after.  The line of a token is one more
than the number of line feeds in front of it, since tokens themselves contain none.
-/

namespace FiniteState

universe u

variable {L : Type u} [Shown L]

namespace Token

/-- The text that is read as a token.  The end of the text has none. -/
def written : Token L → List Char
  | plus => ['+']
  | mix => ['#']
  | shuffle => ['|']
  | star => ['*']
  | caret => ['^']
  | number value => (shown value).toList
  | leftParen => ['(']
  | rightParen => [')']
  | letter l => (shown l).toList
  | finish => []

/-- Whether a token can be written, given which letters can.  Numbers have 64 bits, and the end of
the text is not written. -/
def Writable (readable : L → Prop) : Token L → Prop
  | number value => value < UInt64.size
  | letter l => readable l
  | finish => False
  | _ => True

end Token

/-- Tokens, each of them with the blanks behind it. -/
abbrev Layout (L : Type u) := List (Token L × List Char)

namespace Layout

variable {front gap : List Char} {layout : Layout L} {token : Token L}

def text (layout : Layout L) : List Char :=
  layout.flatMap fun piece => piece.1.written ++ piece.2

/-- The tokens with their lines, given the text in front of them. -/
def placed (front : List Char) (layout : Layout L) : List (Token L × Nat) :=
  layout.mapIdx fun k piece => (piece.1, 1 + (front ++ text (layout.take k)).count '\n')

/-- Only blanks stand behind the tokens, and at least one between two of them. -/
structure Spaced (layout : Layout L) : Prop where
  behind : ∀ piece ∈ layout, ∀ c ∈ piece.2, Text.isBlank c = true
  between : ∀ piece ∈ layout.dropLast, piece.2 ≠ []

theorem text_cons : text ((token, gap) :: layout) = token.written ++ (gap ++ text layout) := by
  rw [text, List.flatMap_cons, List.append_assoc]
  rfl

theorem placed_cons :
    placed front ((token, gap) :: layout) =
      (token, 1 + front.count '\n') :: placed (front ++ (token.written ++ gap)) layout := by
  simp [placed, text, List.mapIdx_cons]

theorem length_placed : (placed front layout).length = layout.length := by
  rw [placed, List.length_mapIdx]

omit [Shown L] in
theorem Spaced.tail (h : Spaced ((token, gap) :: layout)) : Spaced layout := by
  constructor
  · exact fun piece hpiece => h.behind piece (List.mem_cons_of_mem _ hpiece)
  · intro piece hpiece
    cases layout with
    | nil => exact absurd hpiece List.not_mem_nil
    | cons next layout => exact h.between piece (List.mem_cons_of_mem _ hpiece)

/-- A blank or nothing at all stands behind the first token. -/
theorem Spaced.avoids (h : Spaced ((token, gap) :: layout)) :
    Scanner.Avoids (fun c => !Text.isBlank c) (gap ++ text layout) := by
  cases gap with
  | nil =>
      cases layout with
      | nil => exact Scanner.avoids_nil
      | cons next layout => exact absurd rfl (h.between (token, []) List.mem_cons_self)
  | cons c gap =>
      have hc := h.behind _ List.mem_cons_self c List.mem_cons_self
      exact Scanner.avoids_cons (by simp [hc])

end Layout

namespace Scanner

section Written

variable {K : Type u} {lexicon : Lexicon K} {cs rest : List Char} {token : Token K} {value : Nat}

/-- The characters, none of which is a blank, are read as the token in front of a blank and at the
end of the text. -/
structure StandsAlone (lexicon : Lexicon K) (cs : List Char) (token : Token K) : Prop where
  ne_nil : cs ≠ []
  not_blank : ∀ c ∈ cs, Text.isBlank c = false
  takes : ∀ rest, Avoids (fun c => !Text.isBlank c) rest → Takes lexicon cs token rest

theorem avoids_of_blank {p : Char → Bool} (hp : ∀ c, Text.isBlank c = true → p c = false)
    (hrest : Avoids (fun c => !Text.isBlank c) rest) : Avoids p rest :=
  fun c hc => hp c (by simpa using hrest c hc)

theorem standsAlone_operator {c : Char} (h : operator? c = some token) :
    StandsAlone lexicon [c] token where
  ne_nil := List.cons_ne_nil c []
  not_blank := List.forall_mem_singleton.mpr (isBlank_of_operator h)
  takes _ _ := takes_operator h

theorem standsAlone_number (h : value < UInt64.size) :
    StandsAlone lexicon (shown value).toList (.number value) := by
  have hwritten : (shown value).toList = Nat.toDigits 10 value := Nat.toList_repr
  have hdigits : ∀ c ∈ Nat.toDigits 10 value, c.isDigit = true :=
    fun c hc => Nat.isDigit_of_mem_toDigits (by decide) (by decide) hc
  have hvalue : Nat.ofDigitChars 10 (Nat.toDigits 10 value) 0 = value :=
    Nat.ofDigitChars_toDigits (by decide) (by decide)
  rw [hwritten]
  refine ⟨Nat.toDigits_ne_nil, fun c hc => Text.isBlank_of_isDigit (hdigits c hc), ?_⟩
  intro rest hrest
  obtain ⟨c, cs, hcs⟩ := List.exists_cons_of_ne_nil (Nat.toDigits_ne_nil (n := value) (b := 10))
  rw [hcs] at hdigits hvalue ⊢
  obtain ⟨hc, hcs⟩ := List.forall_mem_cons.mp hdigits
  have hfits : Nat.ofDigitChars 10 (c :: cs) 0 ≤ maxNumber :=
    hvalue.symm ▸ Nat.le_sub_one_of_lt h
  have hbehind := avoids_of_blank (fun _ => Text.eq_false_of_excludes Text.isBlank_of_isDigit) hrest
  have htakes : Takes lexicon (c :: cs) _ rest := takes_number hc hcs hfits hbehind
  rwa [hvalue] at htakes

end Written

variable {lexicon : Lexicon L} {readable : L → Prop} {front gap : List Char} {layout : Layout L}
  {token : Token L}

/-- All tokens can be told from their texts if the letters can. -/
theorem standsAlone_written
    (hletters : ∀ l, readable l → StandsAlone lexicon (shown l).toList (.letter l))
    (h : token.Writable readable) : StandsAlone lexicon token.written token := by
  cases token with
  | number value => exact standsAlone_number h
  | letter l => exact hletters l h
  | finish => exact absurd h not_false
  | _ => exact standsAlone_operator rfl

omit [Shown L] in
/-- Blanks move on to the line behind their line feeds. -/
theorem Spells.blanks {text : List Char} {line : Nat} {s : TokenStream L}
    (hgap : ∀ c ∈ gap, Text.isBlank c = true)
    (h : Spells lexicon (line + gap.count '\n') text s) :
    Spells lexicon line (gap ++ text) s := by
  induction gap generalizing line with
  | nil => exact h
  | cons c gap ih =>
      obtain ⟨hc, hgap⟩ := List.forall_mem_cons.mp hgap
      refine .blank hc (ih hgap ?_)
      have hline : lineBehind c line + gap.count '\n' = line + (c :: gap).count '\n' := by
        rw [lineBehind, List.count_cons]
        simp only [beq_iff_eq]
        split <;> omega
      rwa [hline]

/-- A layout spells out its tokens on their lines, and then the end of the text. -/
theorem spells_layout (front : List Char)
    (hletters : ∀ l, readable l → StandsAlone lexicon (shown l).toList (.letter l))
    (hspaced : layout.Spaced) (hwritable : ∀ piece ∈ layout, piece.1.Writable readable) :
    Spells lexicon (1 + front.count '\n') layout.text
      ⟨layout.placed front, .ok (1 + (front ++ layout.text).count '\n')⟩ := by
  induction layout generalizing front with
  | nil =>
      rw [show Layout.text ([] : Layout L) = [] from rfl, List.append_nil]
      exact .finish _
  | cons piece layout ih =>
      obtain ⟨token, gap⟩ := piece
      obtain ⟨htoken, hwritable⟩ := List.forall_mem_cons.mp hwritable
      have hwritten := standsAlone_written hletters htoken
      have hline : (front ++ (token.written ++ gap)).count '\n' =
          front.count '\n' + gap.count '\n' := by
        have hfeed : '\n' ∉ token.written := by
          intro hmem
          exact absurd (hwritten.not_blank _ hmem) (by decide)
        rw [List.count_append, List.count_append, List.count_eq_zero.mpr hfeed, Nat.zero_add]
      have hrest := ih (front ++ (token.written ++ gap)) hspaced.tail hwritable
      rw [hline, ← Nat.add_assoc] at hrest
      have hgap := hrest.blanks (hspaced.behind _ List.mem_cons_self)
      obtain ⟨c, cs, hcs⟩ := List.exists_cons_of_ne_nil hwritten.ne_nil
      have htakes := hwritten.takes _ hspaced.avoids
      rw [Layout.placed_cons, Layout.text_cons]
      simp only [hcs, List.append_assoc] at htakes hgap ⊢
      refine .token htakes ?_ hgap
      rintro rfl
      exact htoken

theorem calls_layout
    (hletters : ∀ l, readable l → StandsAlone lexicon (shown l).toList (.letter l))
    (hfront : ∀ c ∈ front, Text.isBlank c = true) (hspaced : layout.Spaced)
    (hwritable : ∀ piece ∈ layout, piece.1.Writable readable) (extra : Nat) :
    calls lexicon (layout.length + extra) (ofText (String.ofList (front ++ layout.text))) =
      (layout.placed front).map .ok ++
        List.replicate extra (.ok (.finish, 1 + (front ++ layout.text).count '\n')) := by
  have hspells := (spells_layout front hletters hspaced hwritable).blanks hfront
  have hcalls := hspells.calls_eq extra
  rw [Layout.length_placed] at hcalls
  rw [ofText, String.toList_ofList]
  exact hcalls

end Scanner

section Letters

/-- The characters that are letters by themselves. -/
structure IsLetter (c : Char) : Prop where
  not_blank : Text.isBlank c = false
  not_control : Text.isControl c = false
  not_digit : c.isDigit = false
  not_operator : c ∉ Scanner.operators

/-- A character that starts an identifier, followed by characters that continue it. -/
def IsIdentifier (l : String) : Prop :=
  ∃ c cs, l.toList = c :: cs ∧ Lexicon.startsIdentifier c = true ∧
    ∀ d ∈ cs, Lexicon.continuesIdentifier d = true

theorem standsAlone_character {c : Char} (h : IsLetter c) :
    Scanner.StandsAlone Lexicon.characters (shown c).toList (.letter c) := by
  have hshown : (shown c).toList = [c] := by simp [shown]
  rw [hshown]
  refine ⟨List.cons_ne_nil c [], List.forall_mem_singleton.mpr h.not_blank, fun rest _ => ?_⟩
  exact Scanner.takes_character h.not_blank h.not_operator h.not_digit h.not_control

theorem standsAlone_identifier {l : String} (h : IsIdentifier l) :
    Scanner.StandsAlone Lexicon.identifiers (shown l).toList (.letter l) := by
  obtain ⟨c, cs, hl, hc, hcs⟩ := h
  have hletter : l = String.ofList (c :: cs) := by rw [← hl, String.ofList_toList]
  change Scanner.StandsAlone Lexicon.identifiers l.toList (.letter l)
  rw [hl, hletter]
  have hcontinues (d : Char) (hd : Text.isBlank d = true) : Lexicon.continuesIdentifier d = false :=
    Scanner.continuesIdentifier_of_isBlank hd
  refine ⟨List.cons_ne_nil c cs, List.forall_mem_cons.mpr ⟨?_, fun d hd => ?_⟩, ?_⟩
  · exact Text.eq_false_of_excludes Scanner.startsIdentifier_of_isBlank hc
  · exact Text.eq_false_of_excludes (hcontinues d) (hcs d hd)
  · intro rest hrest
    exact Scanner.takes_identifier hc hcs (Scanner.avoids_of_blank hcontinues hrest)

end Letters

namespace Scanner

section Progress

theorem readNumber_suffix (value : Nat) (cs : List Char) : (readNumber value cs).2 <:+ cs := by
  induction cs generalizing value with
  | nil => exact List.suffix_rfl
  | cons c cs ih =>
      rw [readNumber]
      split
      · dsimp only
        split
        · exact (ih _).trans (List.suffix_cons c cs)
        · exact List.suffix_cons c cs
      · exact List.suffix_rfl

/-- A number takes at least the digit that it starts with. -/
theorem readNumber_cons_suffix {c : Char} (hc : c.isDigit = true) (value : Nat) (cs : List Char) :
    (readNumber value (c :: cs)).2 <:+ cs := by
  rw [readNumber, if_pos hc]
  dsimp only
  split
  · exact readNumber_suffix _ cs
  · exact List.suffix_rfl

/-- Behind the blanks a call takes at least one character. -/
theorem next_characters_suffix {c : Char} (hc : Text.isBlank c = false)
    (cs : List Char) (line : Nat) :
    (next Lexicon.characters ⟨c :: cs, line⟩).2.rest <:+ cs := by
  rw [next, skipBlanks_of_not_blank hc]
  dsimp only
  split
  · exact List.suffix_rfl
  · split
    · rename_i hdigit
      have hsuffix := readNumber_cons_suffix hdigit 0 cs
      split <;> rename_i hnumber <;> rwa [hnumber] at hsuffix
    · rw [Lexicon.characters]
      split <;> rename_i hlexicon <;> split at hlexicon <;> cases hlexicon <;> exact List.suffix_rfl

/-- Every call that does not give the end of the text consumes at least one character. -/
theorem next_characters_consumes (s : Scanner) :
    (∃ line, (next Lexicon.characters s).1 = .ok (.finish, line)) ∨
      ∃ taken, taken ≠ [] ∧ s.rest = taken ++ (next Lexicon.characters s).2.rest := by
  obtain ⟨cs, line⟩ := s
  induction cs generalizing line with
  | nil => exact Or.inl ⟨line, rfl⟩
  | cons c cs ih =>
      by_cases hblank : Text.isBlank c = true
      · rw [next_blank hblank]
        refine (ih (lineBehind c line)).imp_right fun h => ?_
        obtain ⟨taken, -, hrest⟩ := h
        exact ⟨c :: taken, List.cons_ne_nil c taken, congrArg (List.cons c) hrest⟩
      · obtain ⟨taken, hrest⟩ := next_characters_suffix (by simpa using hblank) cs line
        exact Or.inr ⟨c :: taken, List.cons_ne_nil c taken, congrArg (List.cons c) hrest.symm⟩

end Progress

end Scanner

/-- Tokens that are written out with blanks around and between them are read as just these tokens on
their lines, and then as the end of the text however often it is asked for.  Where letters are
single characters, a call that does not give the end of the text consumes at least one character of
any text, also if it fails. -/
theorem lexing_undoes_spelling :
    (∀ (front : List Char) (layout : Layout Char), (∀ c ∈ front, Text.isBlank c = true) →
      layout.Spaced → (∀ piece ∈ layout, piece.1.Writable IsLetter) → ∀ extra,
        Scanner.calls Lexicon.characters (layout.length + extra)
            (.ofText (String.ofList (front ++ layout.text))) =
          (layout.placed front).map .ok ++
            List.replicate extra (.ok (.finish, 1 + (front ++ layout.text).count '\n'))) ∧
    (∀ (front : List Char) (layout : Layout String), (∀ c ∈ front, Text.isBlank c = true) →
      layout.Spaced → (∀ piece ∈ layout, piece.1.Writable IsIdentifier) → ∀ extra,
        Scanner.calls Lexicon.identifiers (layout.length + extra)
            (.ofText (String.ofList (front ++ layout.text))) =
          (layout.placed front).map .ok ++
            List.replicate extra (.ok (.finish, 1 + (front ++ layout.text).count '\n'))) ∧
    ∀ s : Scanner,
      (∃ line, (s.next Lexicon.characters).1 = .ok (.finish, line)) ∨
        ∃ taken, taken ≠ [] ∧ s.rest = taken ++ (s.next Lexicon.characters).2.rest := by
  refine ⟨fun front layout => ?_, fun front layout => ?_, Scanner.next_characters_consumes⟩
  · exact Scanner.calls_layout fun _ => standsAlone_character
  · exact Scanner.calls_layout fun _ => standsAlone_identifier

/-- A letter, a number and an operator on three lines. -/
def layoutSample : Layout Char :=
  [(.letter 'a', ['\n']), (.number 12, [' ', '\n']), (.star, [])]

/-- The tokens are read on the lines where they stand. -/
theorem layoutSample_is_read_back :
    (∀ c ∈ ['\n', ' '], Text.isBlank c = true) ∧ layoutSample.Spaced ∧
      (∀ piece ∈ layoutSample, piece.1.Writable IsLetter) ∧
      Scanner.calls Lexicon.characters 5 (.ofText "\n a\n12 \n*") =
        [.ok (.letter 'a', 2), .ok (.number 12, 3), .ok (.star, 4), .ok (.finish, 4),
          .ok (.finish, 4)] := by
  have hfront : ∀ c ∈ ['\n', ' '], Text.isBlank c = true := List.all_eq_true.mp (by decide)
  have hspaced : layoutSample.Spaced := by
    constructor
    · have hblank : (layoutSample.all fun piece => piece.2.all Text.isBlank) = true := by decide
      simpa only [List.all_eq_true] using hblank
    · simp [layoutSample]
  have hwritable : ∀ piece ∈ layoutSample, piece.1.Writable IsLetter := by
    have ha : IsLetter 'a' := ⟨by decide, by decide, by decide, by decide⟩
    simp [layoutSample, Token.Writable, ha, UInt64.size]
  refine ⟨hfront, hspaced, hwritable, ?_⟩
  have htext : String.ofList (['\n', ' '] ++ layoutSample.text) = "\n a\n12 \n*" := by
    decide +kernel
  have hplaced : layoutSample.placed ['\n', ' '] =
      [(.letter 'a', 2), (.number 12, 3), (.star, 4)] := by
    decide +kernel
  have hcalls := lexing_undoes_spelling.1 ['\n', ' '] layoutSample hfront hspaced hwritable 2
  rw [htext, hplaced] at hcalls
  exact hcalls

end FiniteState
