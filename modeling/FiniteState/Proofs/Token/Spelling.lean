import FiniteState.Token.Scanner
import Mathlib.Data.List.Basic
/-!
Texts and the tokens that they spell out.  A text that can be cut into blanks and into pieces that
are read as one token each gives the stream of these tokens.  Whether a piece is read as a token may
depend on the character behind it: a number goes on with a digit and an identifier with whatever
continues it, so these need something else behind them.
-/

namespace FiniteState

universe u

variable {L : Type u}

/-- The tokens of one line in front of a stream. -/
def TokenStream.behind (s : TokenStream L) (line : Nat) (ts : List (Token L)) : TokenStream L :=
  { s with tokens := ts.map (fun token => (token, line)) ++ s.tokens }

theorem TokenStream.behind_append (s : TokenStream L) (line : Nat) (ts us : List (Token L)) :
    s.behind line (ts ++ us) = (s.behind line us).behind line ts := by
  simp [behind]

section Classes

variable {c : Char} {ranges others : List (Nat × Nat)}

/-- If one class excludes another one, it is excluded by it as well. -/
theorem Text.eq_false_of_excludes {p q : Char → Bool} (hexcludes : q c = true → p c = false)
    (hp : p c = true) : q c = false := by
  refine Bool.eq_false_iff.mpr fun hq => ?_
  rw [hexcludes hq] at hp
  cases hp

/-- A character lies in one of two classes at most if their ranges do not meet. -/
theorem Text.inRanges_eq_false_of_disjoint
    (h : ∀ r ∈ ranges, ∀ s ∈ others, r.2 < s.1 ∨ s.2 < r.1) (hc : inRanges ranges c = true) :
    inRanges others c = false := by
  obtain ⟨r, hr, hlower, hupper⟩ := inRanges_iff.mp hc
  rw [← Bool.not_eq_true, inRanges_iff]
  intro hother
  obtain ⟨s, hs, hlower', hupper'⟩ := hother
  have hapart := h r hr s hs
  omega

theorem Text.inRanges_of_isDigit (h : c.isDigit = true) : inRanges [(0x30, 0x39)] c = true := by
  simp only [Char.isDigit, Bool.and_eq_true, decide_eq_true_eq, ge_iff_le, UInt32.le_iff_toNat_le]
    at h
  exact inRanges_iff.mpr ⟨_, List.mem_singleton.mpr rfl, h.1, h.2⟩

theorem Text.isBlank_of_isDigit (h : c.isDigit = true) : isBlank c = false :=
  inRanges_eq_false_of_disjoint (by decide) (inRanges_of_isDigit h)

theorem Text.isAlphabetic_of_isBlank (h : isBlank c = true) : isAlphabetic c = false :=
  inRanges_eq_false_of_disjoint (by decide +kernel) h

theorem Text.isNumeric_of_isBlank (h : isBlank c = true) : isNumeric c = false :=
  inRanges_eq_false_of_disjoint (by decide +kernel) h

theorem Text.isAlphabetic_of_isDigit (h : c.isDigit = true) : isAlphabetic c = false :=
  inRanges_eq_false_of_disjoint (by decide +kernel) (inRanges_of_isDigit h)

end Classes

namespace Scanner

variable {lexicon : Lexicon L} {c : Char} {cs rest text : List Char} {token : Token L}
  {s : TokenStream L} {line n : Nat} {adheres : Char → Bool}

section Pieces

/-- The line of what stands behind a character. -/
def lineBehind (c : Char) (line : Nat) : Nat :=
  if c = '\n' then line + 1 else line

/-- The characters are read as one token in front of `rest`. -/
def Takes (lexicon : Lexicon L) (cs : List Char) (token : Token L) (rest : List Char) : Prop :=
  ∀ line, next lexicon ⟨cs ++ rest, line⟩ = (.ok (token, line), ⟨rest, line⟩)

/-- The text does not start with a character of the class. -/
def Avoids (adheres : Char → Bool) (rest : List Char) : Prop :=
  ∀ c ∈ rest.head?, adheres c = false

theorem avoids_nil : Avoids adheres [] := by
  simp [Avoids]

theorem avoids_cons (h : adheres c = false) : Avoids adheres (c :: rest) := by
  simpa [Avoids] using h

theorem next_blank (h : Text.isBlank c = true) :
    next lexicon ⟨c :: rest, line⟩ = next lexicon ⟨rest, lineBehind c line⟩ := by
  have hskip : skipBlanks ⟨c :: rest, line⟩ = skipBlanks ⟨rest, lineBehind c line⟩ := by
    rw [skipBlanks, skipFrom, if_pos h]
    rfl
  rw [next, next, hskip]

theorem skipBlanks_of_not_blank (h : Text.isBlank c = false) :
    skipBlanks ⟨c :: rest, line⟩ = ⟨c :: rest, line⟩ := by
  rw [skipBlanks, skipFrom, if_neg (by simp [h])]

/-- The characters that stand for operators. -/
def operators : List Char :=
  ['+', '#', '|', '*', '^', '(', ')']

theorem mem_operators (h : operator? c = some token) : c ∈ operators := by
  unfold operator? at h
  split at h <;> simp [operators] at h ⊢

theorem operator?_eq_none (h : c ∉ operators) : operator? (L := L) c = none :=
  Option.eq_none_iff_forall_ne_some.mpr fun _ htoken => h (mem_operators htoken)

theorem notMem_operators {p : Char → Bool} (hp : operators.any p = false) (h : p c = true) :
    c ∉ operators :=
  fun hmem => Bool.eq_false_iff.mp hp (List.any_eq_true.mpr ⟨c, hmem, h⟩)

theorem isBlank_of_operator (h : operator? c = some token) : Text.isBlank c = false :=
  Bool.eq_false_iff.mpr fun hblank => notMem_operators (by decide) hblank (mem_operators h)

theorem takes_operator (h : operator? c = some token) : Takes lexicon [c] token rest := by
  intro line
  rw [List.singleton_append, next, skipBlanks_of_not_blank (isBlank_of_operator h)]
  simp only [h]

/-- Where a digit stands, the next token is a number, or a digit is blamed on the same line. -/
theorem next_of_digit (hc : c.isDigit = true) :
    next lexicon ⟨c :: rest, line⟩ =
      (((readNumber 0 (c :: rest)).1.mapError (LexicalError.mk line)).map fun value =>
        (.number value, line), ⟨(readNumber 0 (c :: rest)).2, line⟩) := by
  rw [next, skipBlanks_of_not_blank (Text.isBlank_of_isDigit hc)]
  simp only [operator?_eq_none (notMem_operators (by decide) hc), hc, if_true]
  split
  all_goals
    rename_i hnumber
    rw [hnumber]
    rfl

theorem readNumber_of_avoids (value : Nat) (h : Avoids Char.isDigit rest) :
    readNumber value rest = (.ok value, rest) := by
  cases rest with
  | nil => rfl
  | cons c rest => rw [readNumber, if_neg (by simp [h c rfl])]

theorem le_ofDigitChars (value : Nat) (cs : List Char) : value ≤ Nat.ofDigitChars 10 cs value := by
  induction cs generalizing value with
  | nil => exact Nat.le_refl value
  | cons c cs ih =>
      rw [Nat.ofDigitChars_cons]
      exact Nat.le_trans (by omega) (ih _)

/-- Digits are read as the number that they stand for, as long as it is not too large. -/
theorem readNumber_append {value : Nat} (hcs : ∀ d ∈ cs, d.isDigit = true)
    (hfits : Nat.ofDigitChars 10 cs value ≤ maxNumber) :
    readNumber value (cs ++ rest) = readNumber (Nat.ofDigitChars 10 cs value) rest := by
  induction cs generalizing value with
  | nil => rfl
  | cons c cs ih =>
      obtain ⟨hc, hcs⟩ := List.forall_mem_cons.mp hcs
      rw [Nat.ofDigitChars_cons] at hfits ⊢
      have hvalue : 10 * value + digit c ≤ maxNumber :=
        Nat.le_trans (le_ofDigitChars _ cs) hfits
      rw [List.cons_append, readNumber, if_pos hc]
      simp only [hvalue, if_true]
      exact ih hcs hfits

theorem takes_number (hc : c.isDigit = true) (hcs : ∀ d ∈ cs, d.isDigit = true)
    (hfits : Nat.ofDigitChars 10 (c :: cs) 0 ≤ maxNumber) (hrest : Avoids Char.isDigit rest) :
    Takes lexicon (c :: cs) (.number (Nat.ofDigitChars 10 (c :: cs) 0)) rest := by
  have hdigits : ∀ d ∈ c :: cs, d.isDigit = true := List.forall_mem_cons.mpr ⟨hc, hcs⟩
  have hnumber : readNumber 0 (c :: (cs ++ rest)) =
      (.ok (Nat.ofDigitChars 10 (c :: cs) 0), rest) := by
    rw [← List.cons_append, readNumber_append hdigits hfits, readNumber_of_avoids _ hrest]
  intro line
  rw [List.cons_append, next_of_digit hc, hnumber]
  rfl

theorem digit_lt (hc : c.isDigit = true) : digit c < 10 := by
  have hrange := Text.inRanges_iff.mp (Text.inRanges_of_isDigit hc)
  simp only [List.mem_singleton, exists_eq_left] at hrange
  simp only [digit, Char.reduceToNat]
  omega

/-- One digit is a number if no other one stands behind it. -/
theorem takes_digit (hc : c.isDigit = true) (hrest : Avoids Char.isDigit rest) :
    Takes lexicon [c] (.number (digit c)) rest := by
  have hvalue : Nat.ofDigitChars 10 [c] 0 = digit c := by
    rw [Nat.ofDigitChars_cons, Nat.ofDigitChars_nil, Nat.mul_zero, Nat.zero_add, digit]
  have hfits : digit c ≤ maxNumber := Nat.le_trans (Nat.le_of_lt (digit_lt hc)) (by decide)
  rw [← hvalue] at hfits ⊢
  exact takes_number hc (by simp) hfits hrest

/-- What starts neither a blank nor an operator nor a number is left to the lexicon. -/
theorem takes_letter {l : L} (hblank : Text.isBlank c = false) (hoperator : c ∉ operators)
    (hdigit : c.isDigit = false) (hlexicon : lexicon c (cs ++ rest) = (some l, rest)) :
    Takes lexicon (c :: cs) (.letter l) rest := by
  intro line
  rw [List.cons_append, next, skipBlanks_of_not_blank hblank]
  simp [operator?_eq_none hoperator, hdigit, hlexicon]

end Pieces

section Spells

/-- The text consists of the tokens of the stream and of blanks. -/
inductive Spells (lexicon : Lexicon L) : Nat → List Char → TokenStream L → Prop
  | finish (line : Nat) : Spells lexicon line [] ⟨[], .ok line⟩
  | blank {line : Nat} {c : Char} {text : List Char} {s : TokenStream L} :
      Text.isBlank c = true → Spells lexicon (lineBehind c line) text s →
        Spells lexicon line (c :: text) s
  | token {line : Nat} {c : Char} {cs rest : List Char} {token : Token L} {s : TokenStream L} :
      Takes lexicon (c :: cs) token rest → token ≠ .finish → Spells lexicon line rest s →
        Spells lexicon line (c :: cs ++ rest) (s.behind line [token])

theorem streamFrom_of_next {s s' : Scanner} (h : s.next lexicon = (.ok (token, line), s'))
    (htoken : token ≠ .finish) :
    s.streamFrom lexicon (n + 1) = (s'.streamFrom lexicon n).behind line [token] := by
  rw [streamFrom, h]
  cases token <;> first | rfl | exact absurd rfl htoken

theorem Spells.streamFrom_eq (h : Spells lexicon line text s) (hn : text.length < n) :
    streamFrom lexicon n ⟨text, line⟩ = s := by
  induction h generalizing n with
  | finish line =>
      cases n with
      | zero => rfl
      | succ n => rfl
  | blank hblank _ ih =>
      rw [List.length_cons] at hn
      obtain ⟨n, rfl⟩ : ∃ m, n = m + 1 := ⟨n - 1, by omega⟩
      rw [← ih (n := n + 1) (by omega), streamFrom, streamFrom, next_blank hblank]
  | token htakes htoken _ ih =>
      rw [List.length_append, List.length_cons] at hn
      obtain ⟨n, rfl⟩ : ∃ m, n = m + 1 := ⟨n - 1, by omega⟩
      rw [streamFrom_of_next (htakes _) htoken, ih (by omega)]

theorem Spells.ofText_eq {text : String} (h : Spells lexicon 1 text.toList s) :
    TokenStream.ofText lexicon text = s :=
  h.streamFrom_eq (Nat.lt_succ_self _)

theorem calls_blank (h : Text.isBlank c = true) (count : Nat) :
    calls lexicon count ⟨c :: rest, line⟩ = calls lexicon count ⟨rest, lineBehind c line⟩ := by
  cases count with
  | zero => rfl
  | succ count => rw [calls, calls, next_blank h]

theorem calls_nil (line count : Nat) :
    calls lexicon count ⟨[], line⟩ = List.replicate count (.ok (.finish, line)) := by
  induction count with
  | zero => rfl
  | succ count ih =>
      rw [calls, List.replicate_succ, ← ih]
      rfl

/-- Calls give what a text spells out, and then the end of the text over and over. -/
theorem Spells.calls_eq (h : Spells lexicon line text s) (extra : Nat) :
    calls lexicon (s.tokens.length + extra) ⟨text, line⟩ =
      s.tokens.map .ok ++ List.replicate extra (s.ending.map fun line => (.finish, line)) := by
  induction h with
  | finish line =>
      rw [List.length_nil, Nat.zero_add, calls_nil]
      rfl
  | blank hblank _ ih => rw [calls_blank hblank, ih]
  | @token line c cs rest token s htakes _ _ ih =>
      have hcount : (s.behind line [token]).tokens.length + extra =
          s.tokens.length + extra + 1 := by
        simp only [TokenStream.behind, List.map_cons, List.map_nil, List.singleton_append,
          List.length_cons]
        omega
      rw [hcount, calls, htakes line]
      exact congrArg (List.cons (.ok (token, line))) ih

end Spells

section Reads

variable {ts us : List (Token L)}

/-- The text is read as the tokens in front of everything that does not adhere to it. -/
def Reads (lexicon : Lexicon L) (adheres : Char → Bool) (text : List Char) (ts : List (Token L)) :
    Prop :=
  ∀ ⦃line rest s⦄, Avoids adheres rest → Spells lexicon line rest s →
    Spells lexicon line (text ++ rest) (s.behind line ts)

namespace Reads

theorem nil : Reads lexicon adheres [] [] :=
  fun _ _ _ _ hs => hs

theorem piece (h : ∀ rest, Avoids adheres rest → Takes lexicon (c :: cs) token rest)
    (htoken : token ≠ .finish) : Reads lexicon adheres (c :: cs) [token] :=
  fun _ rest _ hrest hs => .token (h rest hrest) htoken hs

theorem operator (h : operator? c = some token) (ht : Reads lexicon adheres text ts) :
    Reads lexicon adheres (c :: text) (token :: ts) := by
  intro line rest s hrest hs
  have htoken : token ≠ .finish := by
    rintro rfl
    unfold operator? at h
    split at h <;> cases h
  have hall := Spells.token (takes_operator h) htoken (ht hrest hs)
  rwa [← TokenStream.behind_append] at hall

theorem space (ht : Reads lexicon adheres text ts) : Reads lexicon adheres (' ' :: text) ts :=
  fun _ _ _ hrest hs => .blank (by decide) (ht hrest hs)

theorem append (ht : Reads lexicon adheres text ts) (hu : Reads lexicon adheres (c :: cs) us)
    (hc : adheres c = false) : Reads lexicon adheres (text ++ c :: cs) (ts ++ us) := by
  intro line rest s hrest hs
  rw [List.append_assoc, TokenStream.behind_append]
  exact ht (avoids_cons hc) (hu hrest hs)

/-- A text that is read as tokens gives just these. -/
theorem ofText_eq {text : String} (h : Reads lexicon adheres text.toList ts) :
    TokenStream.ofText lexicon text = ⟨ts.map fun token => (token, 1), .ok 1⟩ := by
  have hall := h avoids_nil (.finish 1)
  rw [List.append_nil] at hall
  rw [hall.ofText_eq, TokenStream.behind, List.append_nil]

end Reads

end Reads

end Scanner

end FiniteState
