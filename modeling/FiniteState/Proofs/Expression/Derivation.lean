import FiniteState.Proofs.Expression.Meaning
import FiniteState.Proofs.Expression.Tokens
import FiniteState.Proofs.Term.Meaning
/-!
The tokens of a printed expression belong to the grammar, and stand for a term with the language of
the expression.  Sums and products are printed without regard to how they are nested, while the
grammar associates them to the left, so the term is built anew; its language is the same.
-/

namespace FiniteState

universe u v

variable {L : Type u} {K : Type v}

section Grammar

variable {ts us : List (Token K)} {s t : Term K}

theorem Derives.exists_sum (hs : Derives .sum ts s) (ht : Derives .sum us t) :
    ∃ r, Derives .sum (ts ++ .plus :: us) r ∧ r.language = s.language + t.language := by
  generalize hlevel : Level.sum = level at ht
  induction ht with
  | ofMixed ht _ =>
      have hsum := Derives.union hs ht
      exact ⟨_, by simpa using hsum, rfl⟩
  | union _ hw ihv _ =>
      obtain ⟨r, hr, hlanguage⟩ := ihv rfl
      have hsum := Derives.union hr hw
      refine ⟨_, by simpa using hsum, ?_⟩
      rw [Term.language, hlanguage, Term.language, add_assoc]
  | _ => cases hlevel

/-- A product behind a product.  The second one must not start with a number. -/
theorem Derives.exists_product (hs : Derives .product ts s) (ht : Derives .product us t)
    (hnumber : ∀ n, us.head? ≠ some (.number n)) :
    ∃ r, Derives .product (ts ++ us) r ∧ r.language = s.language * t.language := by
  generalize hlevel : Level.product = level at ht
  induction ht with
  | ofFactor ht _ => exact ⟨_, .concatenation hs ht hnumber, rfl⟩
  | concatenation hv hw hnumber' ihv _ =>
      have hfirst := hnumber
      obtain ⟨token, rest, rfl, -⟩ := hv.exists_cons
      obtain ⟨r, hr, hlanguage⟩ := ihv hfirst rfl
      have hproduct := Derives.concatenation hr hw hnumber'
      rw [List.append_assoc] at hproduct
      refine ⟨_, hproduct, ?_⟩
      rw [Term.language, hlanguage, Term.language, mul_assoc]
  | _ => cases hlevel

end Grammar

namespace Expression

/-- The level of the grammar that a place demands. -/
def Strength.place : Strength → Level
  | sum => .sum
  | product => .product
  | iteration => .factor
  | atom => .atom

variable {name : L → K} {e : Expression L} {least : Strength} {ts : List (Token K)} {t : Term K}

theorem derives_place (own : Strength) (h : least.level ≤ own.level) (ht : Derives own.place ts t) :
    Derives least.place ts t := by
  cases own with
  | sum =>
      cases least with
      | sum => exact ht
      | _ => exact absurd h (by decide)
  | product =>
      cases least with
      | sum => exact .ofMixed (.ofProduct ht)
      | product => exact ht
      | _ => exact absurd h (by decide)
  | iteration =>
      have hproduct : Derives .product ts t := .ofFactor ht
      cases least with
      | sum => exact .ofMixed (.ofProduct hproduct)
      | product => exact hproduct
      | iteration => exact ht
      | atom => exact absurd h (by decide)
  | atom =>
      have hfactor : Derives .factor ts t := .ofAtom ht
      cases least with
      | sum => exact .ofMixed (.ofProduct (.ofFactor hfactor))
      | product => exact .ofFactor hfactor
      | iteration => exact hfactor
      | atom => exact ht

theorem derives_enclose (own : Strength) (ht : Derives own.place ts t) :
    Derives least.place (encloseTokens least own ts) t := by
  unfold encloseTokens
  split
  · have hsum : Derives Strength.sum.place ts t := derives_place own (Nat.zero_le _) ht
    exact derives_place .atom (by cases least <;> decide) (.parens hsum)
  · rename_i h
    exact derives_place own (Nat.le_of_not_lt h) ht

/-- The first of the tokens is no number. -/
def StartsUnnumbered (ts : List (Token K)) : Prop :=
  ∃ token rest, ts = token :: rest ∧ ∀ n, token ≠ .number n

theorem StartsUnnumbered.append (h : StartsUnnumbered ts) (us : List (Token K)) :
    StartsUnnumbered (ts ++ us) := by
  obtain ⟨token, rest, rfl, htoken⟩ := h
  exact ⟨token, rest ++ us, rfl, htoken⟩

theorem StartsUnnumbered.head?_ne (h : StartsUnnumbered ts) (n : Nat) :
    ts.head? ≠ some (.number n) := by
  obtain ⟨token, rest, rfl, htoken⟩ := h
  exact fun heq => htoken n (Option.some.inj heq)

theorem startsUnnumbered_letter (l : L) : StartsUnnumbered [.letter (name l)] :=
  ⟨_, [], rfl, by simp⟩

theorem startsUnnumbered_enclose {own : Strength} (h : own.level < least.level) :
    StartsUnnumbered (encloseTokens least own ts) :=
  ⟨.leftParen, ts ++ [.rightParen], by rw [encloseTokens, if_pos h], by simp⟩

theorem startsUnnumbered_atom (he : e.isNumber = false) :
    StartsUnnumbered (tokensAt name .atom e) := by
  cases e with
  | zero => cases he
  | one => cases he
  | letter l => exact startsUnnumbered_letter l
  | sum left right => exact startsUnnumbered_enclose (by decide)
  | product left right => exact startsUnnumbered_enclose (by decide)
  | iteration body => exact startsUnnumbered_enclose (by decide)

/-- The tokens of a factor start with a number only if it does. -/
theorem startsUnnumbered_factor (he : e.startsWithNumber = false) :
    StartsUnnumbered (tokensAt name .product e) := by
  induction e with
  | zero => cases he
  | one => cases he
  | letter l => exact startsUnnumbered_letter l
  | sum left right => exact startsUnnumbered_enclose (by decide)
  | product left right ihl _ => exact (ihl he).append _
  | iteration body _ => exact (startsUnnumbered_atom (e := body) he).append _

/-- The tokens of a printed expression stand for a term with its language. -/
theorem exists_derives_tokensAt (name : L → K) (he : e.NumbersInFront) (least : Strength) :
    ∃ t, Derives least.place (tokensAt name least e) t ∧
      t.language = Language.map name e.language := by
  have hatom {ts : List (Token K)} {t : Term K} (least : Strength) (ht : Derives .atom ts t) :
      Derives least.place ts t :=
    derives_place .atom (by cases least <;> decide) ht
  induction e generalizing least with
  | zero => exact ⟨.zero, hatom least .zero, (map_zero _).symm⟩
  | one => exact ⟨.one, hatom least .one, (map_one _).symm⟩
  | letter l =>
      refine ⟨.letter (name l), hatom least (.letter (name l)), ?_⟩
      exact (Set.image_singleton (f := List.map name) (a := [l])).symm
  | sum left right ihl ihr =>
      obtain ⟨s, hs, hleft⟩ := ihl he.1 .sum
      obtain ⟨t, ht, hright⟩ := ihr he.2 .sum
      obtain ⟨r, hr, hlanguage⟩ := hs.exists_sum ht
      refine ⟨r, derives_enclose .sum hr, ?_⟩
      rw [hlanguage, hleft, hright, language, map_add]
  | product left right ihl ihr =>
      obtain ⟨s, hs, hleft⟩ := ihl he.1 .product
      obtain ⟨t, ht, hright⟩ := ihr he.2.1 .product
      obtain ⟨r, hr, hlanguage⟩ := hs.exists_product ht 
        (startsUnnumbered_factor he.2.2).head?_ne
      refine ⟨r, derives_enclose .product hr, ?_⟩
      rw [hlanguage, hleft, hright, language, map_mul]
  | iteration body ih =>
      obtain ⟨t, ht, hlanguage⟩ := ih he .atom
      refine ⟨.star t, derives_enclose .iteration (.star (.ofAtom ht)), ?_⟩
      rw [Term.language, hlanguage, language, Language.map_kstar]

end Expression

end FiniteState
