import FiniteState.Proofs.Draw.Generator
import Mathlib.Data.PFun
/-!
Draws that reject words, as they are without a bound on the attempts.  Words are drawn in the
arithmetic of 64 bits until one is not rejected, so a draw need not come to an end.  Whenever it
does, however many words were rejected, the draws with enough attempts give the same; and it does if
the source never keeps to rejected words.
-/

namespace FiniteState

universe u v

namespace Draw

variable {σ : Type} (bits : Draw σ UInt64)

section Words

/-- The value of the word would be too frequent among the numbers below `n`. -/
def Rejected (n : Nat) (word : UInt64) : Prop :=
  word.toNat * n % UInt64.size < (UInt64.size - n) % n

instance (n : Nat) (word : UInt64) : Decidable (Rejected n word) :=
  inferInstanceAs (Decidable (_ < _))

theorem belowWithin_succ (n attempts : Nat) (s : σ) :
    belowWithin bits n (attempts + 1) s =
      if Rejected n (bits s).1 then belowWithin bits n attempts (bits s).2
      else ((bits s).1.toNat * n / UInt64.size, (bits s).2) :=
  rfl

/-- The word that the source gives after some others. -/
def wordAfter (s : σ) : Nat → UInt64
  | 0 => (bits s).1
  | draws + 1 => wordAfter (bits s).2 draws

/-- From every state on, the source gives a word that is not rejected. -/
def Yields (n : Nat) : Prop :=
  ∀ s, ∃ draws, ¬Rejected n (wordAfter bits s draws)

/-- Below a divisor of the number of words, no word is rejected. -/
theorem yields_of_dvd {n : Nat} (hn : n ∣ UInt64.size) : Yields bits n := by
  refine fun s => ⟨0, fun h => ?_⟩
  rw [Rejected, Nat.mod_eq_zero_of_dvd (Nat.dvd_sub hn (Nat.dvd_refl n))] at h
  exact Nat.not_lt_zero _ h

end Words

section Below

/-- Draw a word, and stop with the high half of its product with `n` if it is not rejected. -/
def attemptBelow (n : UInt64) (s : σ) : (UInt64 × σ) ⊕ σ :=
  let (word, s) := bits s
  let (low, high) := halves (word.toNat * n.toNat)
  if low < (0 - n) % n then .inr s else .inl (high, s)

/-- Attempt it until a word is not rejected. -/
def drawBelow (n : UInt64) : σ →. UInt64 × σ :=
  PFun.fix fun s => Part.some (attemptBelow bits n s)

variable {bits} {n : UInt64} {s : σ}

theorem toNat_pos (hn : n ≠ 0) : 0 < n.toNat :=
  Nat.pos_of_ne_zero fun hzero => hn (UInt64.toNat_inj.mp hzero)

/-- The arithmetic of words rejects the same words. -/
theorem low_lt_iff (hn : n ≠ 0) (word : UInt64) :
    (halves (word.toNat * n.toNat)).1 < (0 - n) % n ↔ Rejected n.toNat word := by
  have hpos := toNat_pos hn
  have hneg : (0 - n).toNat = UInt64.size - n.toNat := by
    rw [UInt64.toNat_sub]
    exact Nat.mod_eq_of_lt (by simp; omega)
  rw [UInt64.lt_iff_toNat_lt, UInt64.toNat_mod, hneg, Rejected]
  exact Iff.rfl

theorem toNat_high (hn : n ≠ 0) (word : UInt64) :
    (halves (word.toNat * n.toNat)).2.toNat = word.toNat * n.toNat / UInt64.size :=
  UInt64.toNat_ofNat_of_lt' (Nat.lt_trans (high_lt word (toNat_pos hn)) n.toNat_lt_size)

theorem attemptBelow_of_rejected (hn : n ≠ 0) (h : Rejected n.toNat (bits s).1) :
    .inr (bits s).2 ∈ Part.some (attemptBelow bits n s) :=
  Part.mem_some_iff.mpr (if_pos ((low_lt_iff hn _).mpr h)).symm

theorem mem_drawBelow_of_not_rejected (hn : n ≠ 0) (h : ¬Rejected n.toNat (bits s).1) :
    ((halves ((bits s).1.toNat * n.toNat)).2, (bits s).2) ∈ drawBelow bits n s :=
  PFun.fix_stop (Part.mem_some_iff.mpr (if_neg (mt (low_lt_iff hn _).mp h)).symm)

/-- What the loop gives is drawn within the attempts, if there are enough of them. -/
theorem exists_belowWithin_eq (hn : n ≠ 0) {x : UInt64 × σ} (hx : x ∈ drawBelow bits n s) :
    ∃ enough, ∀ attempts ≥ enough, belowWithin bits n.toNat attempts s = (x.1.toNat, x.2) := by
  -- The induction is on the number of words that the loop rejects.
  refine PFun.fixInduction hx fun s hx ih => ?_
  by_cases hrejected : Rejected n.toNat (bits s).1
  · obtain ⟨enough, henough⟩ := ih (bits s).2 (attemptBelow_of_rejected hn hrejected)
    refine ⟨enough + 1, fun attempts hattempts => ?_⟩
    obtain ⟨attempts, rfl⟩ := Nat.exists_eq_add_of_le' (Nat.le_of_add_left_le hattempts)
    rw [belowWithin_succ, if_pos hrejected]
    exact henough attempts (Nat.le_of_add_le_add_right hattempts)
  · have hstop := Part.mem_unique hx (mem_drawBelow_of_not_rejected hn hrejected)
    refine ⟨1, fun attempts hattempts => ?_⟩
    obtain ⟨attempts, rfl⟩ := Nat.exists_eq_add_of_le' hattempts
    rw [belowWithin_succ, if_neg hrejected, hstop, toNat_high hn]

/-- The loop comes to an end if one of the next words is not rejected. -/
theorem dom_drawBelow (hn : n ≠ 0) {draws : Nat} (h : ¬Rejected n.toNat (wordAfter bits s draws)) :
    (drawBelow bits n s).Dom := by
  rw [Part.dom_iff_mem]
  induction draws generalizing s with
  | zero => exact ⟨_, mem_drawBelow_of_not_rejected hn h⟩
  | succ draws ih =>
      by_cases hrejected : Rejected n.toNat (bits s).1
      · obtain ⟨x, hx⟩ := ih h
        have hgo := attemptBelow_of_rejected hn hrejected
        exact ⟨x, PFun.mem_fix_iff.mpr (Or.inr ⟨(bits s).2, hgo, hx⟩)⟩
      · exact ⟨_, mem_drawBelow_of_not_rejected hn hrejected⟩

end Below

/-- A draw that may go on for ever.  If it comes to an end, it may have failed. -/
abbrev PartialDraw (σ : Type) (α : Type u) := σ →. Option (α × σ)

section Settles

variable {α : Type u} {β : Type v}

/-- Whenever the draw comes to an end it succeeds, and with enough attempts the other draw gives the
same value and leaves the source in the same state. -/
def Settles (partialDraw : PartialDraw σ α) (value : α → β) (draw : Nat → Draw σ β) : Prop :=
  ∀ s, ∀ outcome ∈ partialDraw s, ∃ a s', outcome = some (a, s') ∧
    ∃ enough, ∀ attempts ≥ enough, draw attempts s = (value a, s')

end Settles

section Between

variable (low high : UInt64)

/-- A random word from `low` to `high`, where there is one.  The number of these words runs over if
they are all words, and then any word will do. -/
def drawBetween : PartialDraw σ UInt64 := fun s =>
  if high < low then Part.some none
  else if high - low + 1 = 0 then Part.some (some (bits s))
  else (drawBelow bits (high - low + 1) s).map fun (word, s) => some (low + word, s)

variable {low high}

theorem toNat_count (h : low ≤ high) :
    (high - low + 1).toNat = (high.toNat - low.toNat + 1) % UInt64.size := by
  rw [UInt64.toNat_add, UInt64.toNat_sub_of_le _ _ h]
  rfl

/-- The number of words in a range runs over if they are all words. -/
theorem count_eq_zero_iff (h : low ≤ high) :
    high - low + 1 = 0 ↔ high.toNat - low.toNat + 1 = UInt64.size := by
  have hhigh : high.toNat < UInt64.size := high.toNat_lt_size
  rw [← UInt64.toNat_inj, toNat_count h, UInt64.toNat_zero]
  simp only [UInt64.size] at hhigh ⊢
  omega

theorem toNat_count_of_ne_zero (h : low ≤ high) (hcount : high - low + 1 ≠ 0) :
    (high - low + 1).toNat = high.toNat - low.toNat + 1 := by
  have hhigh : high.toNat < UInt64.size := high.toNat_lt_size
  have hsize := mt (count_eq_zero_iff h).mpr hcount
  rw [toNat_count h]
  exact Nat.mod_eq_of_lt (by omega)

/-- What is drawn lies in the range, as adding the least word does not run over. -/
theorem settles_drawBetween (h : low ≤ high) :
    Settles (drawBetween bits low high) UInt64.toNat fun attempts =>
      between bits attempts low.toNat high.toNat := by
  have hle : low.toNat ≤ high.toNat := UInt64.le_iff_toNat_le.mp h
  have hhigh : high.toNat < UInt64.size := high.toNat_lt_size
  intro s outcome houtcome
  rw [drawBetween, if_neg (UInt64.not_lt.mpr h)] at houtcome
  by_cases hcount : high - low + 1 = 0
  · -- The range starts with the least word, so nothing is added to the word that is drawn.
    have hall := (count_eq_zero_iff h).mp hcount
    have hlow : low.toNat = 0 := by omega
    rw [if_pos hcount] at houtcome
    refine ⟨_, _, Part.mem_some_iff.mp houtcome, 0, fun attempts _ => ?_⟩
    dsimp only [between, below]
    rw [if_pos hall, hlow, Nat.zero_add]
  · rw [if_neg hcount] at houtcome
    obtain ⟨⟨word, s'⟩, hdraw, rfl⟩ := (Part.mem_map_iff _).mp houtcome
    obtain ⟨enough, henough⟩ := exists_belowWithin_eq hcount hdraw
    refine ⟨_, _, rfl, enough, fun attempts hattempts => ?_⟩
    have hbelow := henough attempts hattempts
    rw [toNat_count_of_ne_zero h hcount] at hbelow
    have hbetween :
        between bits attempts low.toNat high.toNat s = (low.toNat + word.toNat, s') := by
      dsimp only [between, below]
      rw [if_neg (mt (count_eq_zero_iff h).mpr hcount), hbelow]
    have hmem := (between_mem_range bits attempts hle s).2
    rw [hbetween] at hmem
    rw [UInt64.toNat_add, Nat.mod_eq_of_lt (Nat.lt_of_le_of_lt hmem hhigh)]
    exact hbetween

/-- The draw comes to an end if the source does not keep to rejected words. -/
theorem dom_drawBetween (h : low ≤ high) (hyields : Yields bits (high.toNat - low.toNat + 1))
    (s : σ) : (drawBetween bits low high s).Dom := by
  rw [drawBetween, if_neg (UInt64.not_lt.mpr h)]
  by_cases hcount : high - low + 1 = 0
  · rw [if_pos hcount]
    exact Part.some_dom _
  · rw [if_neg hcount]
    rw [← toNat_count_of_ne_zero h hcount] at hyields
    obtain ⟨draws, haccepted⟩ := hyields s
    exact dom_drawBelow hcount haccepted

end Between

end Draw

end FiniteState
