import FiniteState.Proofs.Token.Spelling
import Mathlib.Data.List.TakeWhile
/-!
Numbers near the limit.  The digits in front of a text are read as the number that they stand for
if it has 64 bits.  Otherwise the first digit that makes the number too large is blamed, and what
stands behind it is left.  With words of 64 bits, where the product and the sum may both run over,
exactly the same numbers are read.
-/

namespace FiniteState

universe u

namespace Scanner

/-- The number that digits stand for. -/
def decimal (digits : List Char) : Nat :=
  Nat.ofDigitChars 10 digits 0

/-- All digits of `front` can be read, and then `c` makes the number too large. -/
structure Overflows (front : List Char) (c : Char) : Prop where
  digits : ∀ d ∈ front ++ [c], d.isDigit = true
  fits : ∀ taken, taken <+: front → decimal taken ≤ maxNumber
  exceeds : maxNumber < decimal (front ++ [c])

section Limit

variable {c : Char} {cs front rest text : List Char} {value : Nat}

theorem ofDigitChars_concat (value : Nat) (cs : List Char) (c : Char) :
    Nat.ofDigitChars 10 (cs ++ [c]) value = 10 * Nat.ofDigitChars 10 cs value + digit c := by
  rw [Nat.ofDigitChars_append, Nat.ofDigitChars_cons, Nat.ofDigitChars_nil, digit]

theorem decimal_mono {taken : List Char} (h : taken <+: front) :
    decimal taken ≤ decimal front := by
  obtain ⟨behind, rfl⟩ := h
  rw [decimal, decimal, Nat.ofDigitChars_append]
  exact le_ofDigitChars _ behind

/-- A digit that makes the number too large is consumed and given back. -/
theorem readNumber_of_exceeds (hc : c.isDigit = true) (h : maxNumber < 10 * value + digit c) :
    readNumber value (c :: rest) = (.error c, rest) := by
  rw [readNumber, if_pos hc]
  exact if_neg (Nat.not_le.mpr h)

/-- Digits that stand for too large a number contain a first one that is one too many. -/
theorem exists_exceeding (hvalue : value ≤ maxNumber)
    (h : maxNumber < Nat.ofDigitChars 10 cs value) :
    ∃ front c behind, cs = front ++ c :: behind ∧
      Nat.ofDigitChars 10 front value ≤ maxNumber ∧
      maxNumber < Nat.ofDigitChars 10 (front ++ [c]) value := by
  induction cs generalizing value with
  | nil => exact absurd hvalue (Nat.not_le.mpr h)
  | cons c cs ih =>
      rw [Nat.ofDigitChars_cons] at h
      by_cases hnext : 10 * value + digit c ≤ maxNumber
      · obtain ⟨front, d, behind, rfl, hfits, hexceeds⟩ := ih hnext h
        refine ⟨c :: front, d, behind, rfl, ?_, ?_⟩
        · rw [Nat.ofDigitChars_cons]
          exact hfits
        · rw [List.cons_append, Nat.ofDigitChars_cons]
          exact hexceeds
      · refine ⟨[], c, cs, rfl, hvalue, ?_⟩
        rw [ofDigitChars_concat]
        exact Nat.not_le.mp hnext

theorem readNumber_of_fits
    (h : decimal (text.takeWhile Char.isDigit) ≤ maxNumber) :
    readNumber 0 text =
      (.ok (decimal (text.takeWhile Char.isDigit)), text.dropWhile Char.isDigit) := by
  have hdigits : ∀ d ∈ text.takeWhile Char.isDigit, d.isDigit = true :=
    fun _ => List.mem_takeWhile_imp
  have hrest : Avoids Char.isDigit (text.dropWhile Char.isDigit) := by
    intro d hd
    have hhead := List.head?_dropWhile_not Char.isDigit text
    rwa [Option.mem_def.mp hd] at hhead
  calc
    readNumber 0 text =
        readNumber 0 (text.takeWhile Char.isDigit ++ text.dropWhile Char.isDigit) := by
      rw [List.takeWhile_append_dropWhile]
    _ = readNumber (decimal (text.takeWhile Char.isDigit)) (text.dropWhile Char.isDigit) :=
      readNumber_append hdigits h
    _ = _ := readNumber_of_avoids _ hrest

/-- A number is read up to the digit that makes it too large. -/
theorem readNumber_of_overflows (h : Overflows front c) :
    readNumber 0 (front ++ c :: rest) = (.error c, rest) := by
  obtain ⟨hfront, hc⟩ := List.forall_mem_append.mp h.digits
  have hfits : decimal front ≤ maxNumber := h.fits front List.prefix_rfl
  have hexceeds : maxNumber < 10 * decimal front + digit c := by
    rw [decimal, ← ofDigitChars_concat]
    exact h.exceeds
  rw [readNumber_append hfront hfits]
  exact readNumber_of_exceeds (hc c List.mem_cons_self) hexceeds

/-- If the digits in front of a text stand for too large a number, one of them overflows. -/
theorem exists_overflows (h : maxNumber < decimal (text.takeWhile Char.isDigit)) :
    ∃ front c behind, text = front ++ c :: behind ∧ Overflows front c := by
  obtain ⟨front, c, behind, hdigits, hfits, hexceeds⟩ := exists_exceeding (Nat.zero_le _) h
  refine ⟨front, c, behind ++ text.dropWhile Char.isDigit, ?_, ?_, ?_, hexceeds⟩
  · calc
      text = text.takeWhile Char.isDigit ++ text.dropWhile Char.isDigit :=
        List.takeWhile_append_dropWhile.symm
      _ = front ++ c :: (behind ++ text.dropWhile Char.isDigit) := by
        rw [hdigits, List.append_assoc, List.cons_append]
  · intro d hd
    have hmem : d ∈ text.takeWhile Char.isDigit := by
      rw [hdigits, List.append_cons]
      exact List.mem_append_left behind hd
    exact List.mem_takeWhile_imp hmem
  · exact fun taken htaken => Nat.le_trans (decimal_mono htaken) hfits

/-- The digits in front of a text are read exactly if they stand for a number that is not too
large. -/
theorem exists_readNumber_eq_ok_iff :
    (∃ value, (readNumber 0 text).1 = .ok value) ↔
      decimal (text.takeWhile Char.isDigit) ≤ maxNumber := by
  constructor
  · rintro ⟨value, hvalue⟩
    by_contra hlarge
    obtain ⟨front, c, behind, rfl, hoverflows⟩ := exists_overflows (Nat.not_le.mp hlarge)
    rw [readNumber_of_overflows hoverflows] at hvalue
    cases hvalue
  · intro hfits
    exact ⟨_, congrArg Prod.fst (readNumber_of_fits hfits)⟩

end Limit

section Words

/-- Put a digit behind a number of 64 bits, unless the product or the sum runs over. -/
def appendDigit? (value : UInt64) (d : Nat) : Option UInt64 :=
  if value.toNat * 10 < UInt64.size then
    let product := value * 10
    if product.toNat + d < UInt64.size then some (product + UInt64.ofNat d) else none
  else none

/-- Read the digits of a number with words of 64 bits. -/
def readWord (value : UInt64) : List Char → Except Char UInt64 × List Char
  | [] => (.ok value, [])
  | c :: rest =>
      if c.isDigit then
        match appendDigit? value (digit c) with
        | some value => readWord value rest
        | none => (.error c, rest)
      else (.ok value, c :: rest)

/-- If neither of them runs over, nothing of the number is lost, and it is too large otherwise. -/
theorem appendDigit?_map_toNat (value : UInt64) (d : Nat) :
    (appendDigit? value d).map UInt64.toNat =
      if 10 * value.toNat + d ≤ maxNumber then some (10 * value.toNat + d) else none := by
  have hmax : maxNumber + 1 = UInt64.size := rfl
  rw [appendDigit?]
  split
  · rename_i hproduct
    have htoNat : (value * 10).toNat = value.toNat * 10 := by
      rw [UInt64.toNat_mul]
      exact Nat.mod_eq_of_lt hproduct
    dsimp only
    split
    · rename_i hsum
      rw [htoNat] at hsum
      have hd : (UInt64.ofNat d).toNat = d := UInt64.toNat_ofNat_of_lt' (by omega)
      have hvalue : (value * 10 + UInt64.ofNat d).toNat = 10 * value.toNat + d := by
        rw [UInt64.toNat_add, htoNat, hd, Nat.mul_comm]
        exact Nat.mod_eq_of_lt (by rw [Nat.mul_comm]; exact hsum)
      rw [if_pos (by omega), Option.map_some, hvalue]
    · rename_i hsum
      rw [htoNat] at hsum
      rw [if_neg (by omega)]
      rfl
  · rename_i hproduct
    rw [if_neg (by omega)]
    rfl

/-- Words of 64 bits read the same numbers, and blame the same digits. -/
theorem readNumber_eq_readWord (value : UInt64) (text : List Char) :
    readNumber value.toNat text =
      ((readWord value text).1.map UInt64.toNat, (readWord value text).2) := by
  induction text generalizing value with
  | nil => rfl
  | cons c rest ih =>
      have hnext := appendDigit?_map_toNat value (digit c)
      rw [readNumber, readWord]
      by_cases hc : c.isDigit = true
      · rw [if_pos hc, if_pos hc]
        by_cases hfits : 10 * value.toNat + digit c ≤ maxNumber
        · rw [if_pos hfits] at hnext
          obtain ⟨next, hword, hvalue⟩ := Option.map_eq_some_iff.mp hnext
          dsimp only
          rw [if_pos hfits, hword, ← hvalue]
          exact ih next
        · rw [if_neg hfits] at hnext
          dsimp only
          rw [if_neg hfits, Option.map_eq_none_iff.mp hnext]
          rfl
      · rw [if_neg hc, if_neg hc]
        rfl

end Words

variable {L : Type u}

/-- If a text starts with a digit, all digits that it starts with are read as a number, whatever
zeros stand in front, exactly if the number is at most `maxNumber`.  Otherwise the first digit that
makes it too large is blamed on the line of the number, and only what stands behind that digit is
left.  Words of 64 bits, for which the product and the sum are checked one after the other, give the
same. -/
theorem numbers_are_read_up_to_the_limit (lexicon : Lexicon L) (line : Nat) (text : List Char)
    (hstart : text.head?.any Char.isDigit = true) :
    ((∃ value, (readNumber 0 text).1 = .ok value) ↔
      decimal (text.takeWhile Char.isDigit) ≤ maxNumber) ∧
    (decimal (text.takeWhile Char.isDigit) ≤ maxNumber →
      readNumber 0 text =
          (.ok (decimal (text.takeWhile Char.isDigit)), text.dropWhile Char.isDigit) ∧
        next lexicon ⟨text, line⟩ =
          (.ok (.number (decimal (text.takeWhile Char.isDigit)), line),
            ⟨text.dropWhile Char.isDigit, line⟩)) ∧
    (maxNumber < decimal (text.takeWhile Char.isDigit) →
      ∃ front c behind, text = front ++ c :: behind ∧ Overflows front c ∧
        readNumber 0 text = (.error c, behind) ∧
        next lexicon ⟨text, line⟩ = (.error ⟨line, c⟩, ⟨behind, line⟩)) ∧
    readNumber 0 text = ((readWord 0 text).1.map UInt64.toNat, (readWord 0 text).2) := by
  obtain ⟨first, others, rfl, hfirst⟩ :
      ∃ first others, text = first :: others ∧ first.isDigit = true := by
    cases text with
    | nil => cases hstart
    | cons first others => exact ⟨first, others, rfl, hstart⟩
  have hnext : next lexicon ⟨first :: others, line⟩ = _ := next_of_digit hfirst
  refine ⟨exists_readNumber_eq_ok_iff, fun hfits => ?_, fun hexceeds => ?_,
    readNumber_eq_readWord 0 _⟩
  · rw [hnext, readNumber_of_fits hfits]
    exact ⟨rfl, rfl⟩
  · obtain ⟨front, c, behind, htext, hoverflows⟩ := exists_overflows hexceeds
    have hnumber : readNumber 0 (first :: others) = (.error c, behind) :=
      htext ▸ readNumber_of_overflows hoverflows
    refine ⟨front, c, behind, htext, hoverflows, hnumber, ?_⟩
    rw [hnext, hnumber]
    rfl

/-- The largest number is read behind zeros, and one more is too large. -/
theorem numbers_around_the_limit :
    "0018446744073709551615a".toList.head?.any Char.isDigit = true ∧
      next Lexicon.characters ⟨"0018446744073709551615a".toList, 7⟩ =
        (.ok (.number 18446744073709551615, 7), ⟨['a'], 7⟩) ∧
      "18446744073709551616+".toList.head?.any Char.isDigit = true ∧
      ∃ front c behind, "18446744073709551616+".toList = front ++ c :: behind ∧
        Overflows front c ∧
        next Lexicon.characters ⟨"18446744073709551616+".toList, 7⟩ =
          (.error ⟨7, c⟩, ⟨behind, 7⟩) := by
  have hzeros : "0018446744073709551615a".toList.head?.any Char.isDigit = true := by decide +kernel
  have hfits : decimal ("0018446744073709551615a".toList.takeWhile Char.isDigit) =
      18446744073709551615 := by
    decide +kernel
  have hrest : "0018446744073709551615a".toList.dropWhile Char.isDigit = ['a'] := by
    decide +kernel
  have hstart : "18446744073709551616+".toList.head?.any Char.isDigit = true := by decide +kernel
  have hexceeds :
      maxNumber < decimal ("18446744073709551616+".toList.takeWhile Char.isDigit) := by
    decide +kernel
  refine ⟨hzeros, ?_, hstart, ?_⟩
  · have hread := (numbers_are_read_up_to_the_limit Lexicon.characters 7 _ hzeros).2.1
    rw [hfits, hrest] at hread
    exact (hread (by decide)).2
  · obtain ⟨front, c, behind, htext, hoverflows, -, hnext⟩ :=
      (numbers_are_read_up_to_the_limit Lexicon.characters 7 _ hstart).2.2.1 hexceeds
    exact ⟨front, c, behind, htext, hoverflows, hnext⟩

end Scanner

end FiniteState
