import FiniteState.Expression.Printing
import FiniteState.Proofs.Term.Nesting
import FiniteState.Proofs.Token.Spelling
/-!
The tokens of a printed expression.  A number behind a factor would be read as a repetition, so the
text of an expression is read as its own tokens only if numbers stand in front: no factor behind
another one starts with a number.
-/

namespace FiniteState

universe u v

variable {L : Type u} {K : Type v}

namespace Expression

section Shape

def isNumber : Expression L → Bool
  | zero => true
  | one => true
  | _ => false

/-- Whether the text of an expression as a factor starts with a number.  A sum starts with a
parenthesis there, and so does what is repeated unless it is a single token. -/
def startsWithNumber : Expression L → Bool
  | zero => true
  | one => true
  | letter _ => false
  | sum _ _ => false
  | product left _ => left.startsWithNumber
  | iteration body => body.isNumber

/-- No factor behind another one starts with a number. -/
def NumbersInFront : Expression L → Prop
  | sum left right => left.NumbersInFront ∧ right.NumbersInFront
  | product left right =>
      left.NumbersInFront ∧ right.NumbersInFront ∧ right.startsWithNumber = false
  | iteration body => body.NumbersInFront
  | _ => True

end Shape

section Tokens

/-- Put the tokens of an expression of strength `own` into a place that demands `least`. -/
def encloseTokens (least own : Strength) (ts : List (Token K)) : List (Token K) :=
  if own.level < least.level then .leftParen :: (ts ++ [.rightParen]) else ts

/-- The tokens of an expression in a place that demands `least`, given the names of the letters. -/
def tokensAt (name : L → K) : Strength → Expression L → List (Token K)
  | _, zero => [.number 0]
  | _, one => [.number 1]
  | _, letter l => [.letter (name l)]
  | least, sum left right =>
      encloseTokens least .sum (tokensAt name .sum left ++ .plus :: tokensAt name .sum right)
  | least, product left right =>
      encloseTokens least .product (tokensAt name .product left ++ tokensAt name .product right)
  | least, iteration body =>
      encloseTokens least .iteration (tokensAt name .atom body ++ [.star])

end Tokens

section Legible

open Scanner

variable [Shown L] {lexicon : Lexicon K} {spaced : Bool} {adheres : Char → Bool} {name : L → K}
  {e : Expression L} {least : Strength}

/-- The characters that stand behind tokens of an expression do not adhere to them. -/
structure Separates (spaced : Bool) (adheres : Char → Bool) : Prop where
  digit : ∀ c, c.isDigit = true → adheres c = true
  plus : adheres '+' = false
  star : adheres '*' = false
  rightParen : adheres ')' = false
  /-- What stands behind a factor in front of another one. -/
  gap : adheres (if spaced then ' ' else '(') = false

/-- The text of the letter `l` is read as the letter `k`.  Without spaces it may also stand directly
behind another letter. -/
structure Legible (lexicon : Lexicon K) (spaced : Bool) (adheres : Char → Bool) (l : L) (k : K) :
    Prop where
  ne_nil : (shown l).toList ≠ []
  takes : ∀ rest, Avoids adheres rest → Takes lexicon (shown l).toList (.letter k) rest
  avoids : spaced = false → Avoids adheres (shown l).toList
  parens : (shown l).toList.filterMap Paren.ofChar? = []

theorem toList_enclose (own : Strength) (text : String) :
    (enclose least own text).toList =
      if own.level < least.level then '(' :: (text.toList ++ [')']) else text.toList := by
  unfold enclose
  split <;> simp

theorem reads_enclose {text : String} {ts : List (Token K)} (hset : Separates spaced adheres)
    (own : Strength) (h : Reads lexicon adheres text.toList ts) :
    Reads lexicon adheres (enclose least own text).toList (encloseTokens least own ts) := by
  rw [toList_enclose, encloseTokens]
  split
  · exact .operator rfl (h.append (.operator rfl .nil) hset.rightParen)
  · exact h

/-- A text starts with a character that does not adhere to what stands in front. -/
def StartsFreely (adheres : Char → Bool) (text : String) : Prop :=
  ∃ c cs, text.toList = c :: cs ∧ adheres c = false

theorem StartsFreely.append {text : String} (h : StartsFreely adheres text) (more : String) :
    StartsFreely adheres (text ++ more) := by
  obtain ⟨c, cs, htext, hc⟩ := h
  exact ⟨c, cs ++ more.toList, by rw [String.toList_append, htext, List.cons_append], hc⟩

theorem startsFreely_enclose {own : Strength} {text : String} (hset : Separates false adheres)
    (h : own.level < least.level) : StartsFreely adheres (enclose least own text) :=
  ⟨'(', text.toList ++ [')'], by rw [toList_enclose, if_pos h], hset.gap⟩

theorem Legible.startsFreely {l : L} {k : K} (h : Legible lexicon false adheres l k) :
    StartsFreely adheres (shown l) := by
  obtain ⟨c, cs, htext⟩ := List.exists_cons_of_ne_nil h.ne_nil
  have hc := h.avoids rfl c
  rw [htext] at hc
  exact ⟨c, cs, htext, hc rfl⟩

theorem startsFreely_atom (hset : Separates false adheres)
    (hlegible : ∀ l ∈ e.letters, Legible lexicon false adheres l (name l))
    (he : e.isNumber = false) : StartsFreely adheres (textAt false .atom e) := by
  cases e with
  | zero => cases he
  | one => cases he
  | letter l => exact (hlegible l (List.mem_singleton.mpr rfl)).startsFreely
  | sum left right => exact startsFreely_enclose hset (by decide)
  | product left right => exact startsFreely_enclose hset (by decide)
  | iteration body => exact startsFreely_enclose hset (by decide)

/-- Without spaces a factor that does not start with a number can stand behind another one. -/
theorem startsFreely_factor (hset : Separates false adheres)
    (hlegible : ∀ l ∈ e.letters, Legible lexicon false adheres l (name l))
    (he : e.startsWithNumber = false) : StartsFreely adheres (textAt false .product e) := by
  induction e with
  | zero => cases he
  | one => cases he
  | letter l => exact (hlegible l (List.mem_singleton.mpr rfl)).startsFreely
  | sum left right => exact startsFreely_enclose hset (by decide)
  | product left right ihl _ =>
      have hleft := ihl (fun l hl => hlegible l (List.mem_append_left _ hl)) he
      exact (hleft.append _).append _
  | iteration body _ => exact (startsFreely_atom (e := body) hset hlegible he).append _

/-- The text of an expression is read as its tokens. -/
theorem reads_textAt (hset : Separates spaced adheres)
    (hlegible : ∀ l ∈ e.letters, Legible lexicon spaced adheres l (name l))
    (he : e.NumbersInFront) (least : Strength) :
    Reads lexicon adheres (textAt spaced least e).toList (tokensAt name least e) := by
  have hnumber {c : Char} (hc : c.isDigit = true) :
      Reads lexicon adheres [c] [.number (digit c)] := by
    refine .piece (fun rest hrest => takes_digit hc fun d hd => ?_) (by simp)
    exact Bool.eq_false_iff.mpr fun hdigit =>
      Bool.eq_false_iff.mp (hrest d hd) (hset.digit d hdigit)
  induction e generalizing least with
  | zero =>
      rw [textAt, tokensAt]
      exact hnumber (c := '0') rfl
  | one =>
      rw [textAt, tokensAt]
      exact hnumber (c := '1') rfl
  | letter l =>
      have hl := hlegible l (List.mem_singleton.mpr rfl)
      obtain ⟨c, cs, htext⟩ := List.exists_cons_of_ne_nil hl.ne_nil
      have htakes := hl.takes
      rw [htext] at htakes
      rw [textAt, htext]
      exact .piece htakes (by simp)
  | sum left right ihl ihr =>
      have hleft := ihl (fun l hl => hlegible l (List.mem_append_left _ hl)) he.1 .sum
      have hright := ihr (fun l hl => hlegible l (List.mem_append_right _ hl)) he.2 .sum
      apply reads_enclose hset
      simpa using hleft.append (.operator rfl hright) hset.plus
  | product left right ihl ihr =>
      have hleft :=
        ihl (fun l hl => hlegible l (List.mem_append_left _ hl)) he.1 .product
      have hright :=
        ihr (fun l hl => hlegible l (List.mem_append_right _ hl)) he.2.1 .product
      apply reads_enclose hset
      cases spaced with
      | true => simpa using hleft.append hright.space hset.gap
      | false =>
          obtain ⟨c, cs, htext, hc⟩ := startsFreely_factor hset
            (fun l hl => hlegible l (List.mem_append_right _ hl)) he.2.2
          rw [htext] at hright
          simpa [htext] using hleft.append hright hc
  | iteration body ih =>
      have hbody := ih hlegible he .atom
      apply reads_enclose hset
      simpa using hbody.append (.operator rfl .nil) hset.star

theorem parens_enclose (own : Strength) {text : String} {ts : List (Token K)}
    (h : text.toList.filterMap Paren.ofChar? = ts.filterMap Paren.ofToken?) :
    (enclose least own text).toList.filterMap Paren.ofChar? =
      (encloseTokens least own ts).filterMap Paren.ofToken? := by
  rw [toList_enclose, encloseTokens]
  split
  · simp [Paren.ofChar?, Paren.ofToken?, h]
  · exact h

theorem parens_textAt (hlegible : ∀ l ∈ e.letters, Legible lexicon spaced adheres l (name l))
    (least : Strength) :
    (textAt spaced least e).toList.filterMap Paren.ofChar? =
      (tokensAt name least e).filterMap Paren.ofToken? := by
  induction e generalizing least with
  | zero => simp [textAt, tokensAt, Paren.ofChar?, Paren.ofToken?]
  | one => simp [textAt, tokensAt, Paren.ofChar?, Paren.ofToken?]
  | letter l =>
      have hl := (hlegible l (List.mem_singleton.mpr rfl)).parens
      simp [textAt, tokensAt, Paren.ofToken?, hl]
  | sum left right ihl ihr =>
      have hleft := ihl (fun l hl => hlegible l (List.mem_append_left _ hl)) .sum
      have hright := ihr (fun l hl => hlegible l (List.mem_append_right _ hl)) .sum
      apply parens_enclose
      simp [List.filterMap_cons, Paren.ofChar?, Paren.ofToken?, hleft, hright]
  | product left right ihl ihr =>
      have hleft := ihl (fun l hl => hlegible l (List.mem_append_left _ hl)) .product
      have hright := ihr (fun l hl => hlegible l (List.mem_append_right _ hl)) .product
      apply parens_enclose
      cases spaced <;> simp [Paren.ofChar?, hleft, hright]
  | iteration body ih =>
      have hbody := ih hlegible .atom
      apply parens_enclose
      simp [Paren.ofChar?, Paren.ofToken?, hbody]

end Legible

end Expression

end FiniteState
