import FiniteState.Term.Parser
import Mathlib.Data.List.Basic
/-!
The grammar of the expression syntax, given by its levels.  A number right behind a factor always
repeats the factor, so a factor that is joined by juxtaposition does not start with one.
-/

namespace FiniteState

universe u

variable {L : Type u}

/-- The levels of the grammar, from the weakest to the strongest binding. -/
inductive Level where
  | sum
  | mixed
  | product
  | factor
  | atom

/-- The tokens of `tokens` stand for the term at a level of the grammar. -/
inductive Derives : Level → List (Token L) → Term L → Prop where
  | letter (l : L) : Derives .atom [.letter l] (.letter l)
  | zero : Derives .atom [.number 0] .zero
  | one : Derives .atom [.number 1] .one
  | parens {ts : List (Token L)} {t : Term L} :
      Derives .sum ts t → Derives .atom (.leftParen :: ts ++ [.rightParen]) t
  | ofAtom {ts : List (Token L)} {t : Term L} : Derives .atom ts t → Derives .factor ts t
  | star {ts : List (Token L)} {t : Term L} :
      Derives .factor ts t → Derives .factor (ts ++ [.star]) (.star t)
  | plus {ts : List (Token L)} {t : Term L} :
      Derives .factor ts t → Derives .factor (ts ++ [.caret]) (.plus t)
  | power {ts : List (Token L)} {t : Term L} (n : Nat) :
      Derives .factor ts t → Derives .factor (ts ++ [.number n]) (.power t n)
  | ofFactor {ts : List (Token L)} {t : Term L} : Derives .factor ts t → Derives .product ts t
  | concatenation {ts us : List (Token L)} {s t : Term L} :
      Derives .product ts s → Derives .factor us t → (∀ n, us.head? ≠ some (.number n)) →
        Derives .product (ts ++ us) (.concatenation s t)
  | ofProduct {ts : List (Token L)} {t : Term L} : Derives .product ts t → Derives .mixed ts t
  | mix {ts us : List (Token L)} {s t : Term L} :
      Derives .mixed ts s → Derives .product us t →
        Derives .mixed (ts ++ [.mix] ++ us) (.mix s t)
  | shuffle {ts us : List (Token L)} {s t : Term L} :
      Derives .mixed ts s → Derives .product us t →
        Derives .mixed (ts ++ [.shuffle] ++ us) (.shuffle s t)
  | ofMixed {ts : List (Token L)} {t : Term L} : Derives .mixed ts t → Derives .sum ts t
  | union {ts us : List (Token L)} {s t : Term L} :
      Derives .sum ts s → Derives .mixed us t → Derives .sum (ts ++ [.plus] ++ us) (.union s t)

def Interleaving.token : Interleaving → Token L
  | mix => .mix
  | shuffle => .shuffle

theorem Derives.interleave {ts us : List (Token L)} {s t : Term L} (op : Interleaving)
    (hs : Derives .mixed ts s) (ht : Derives .product us t) :
    Derives .mixed (ts ++ [op.token] ++ us) (op.apply s t) := by
  cases op with
  | mix => exact .mix hs ht
  | shuffle => exact .shuffle hs ht

def Token.StartsAtom : Token L → Prop
  | .letter _ => True
  | .number _ => True
  | .leftParen => True
  | _ => False

/-- An atom has a first token, and so has everything that is built from atoms. -/
theorem Derives.exists_cons {level : Level} {ts : List (Token L)} {t : Term L}
    (h : Derives level ts t) : ∃ token rest, ts = token :: rest ∧ token.StartsAtom := by
  induction h with
  | letter l => exact ⟨_, _, rfl, trivial⟩
  | zero => exact ⟨_, _, rfl, trivial⟩
  | one => exact ⟨_, _, rfl, trivial⟩
  | parens _ _ => exact ⟨_, _, rfl, trivial⟩
  | ofAtom _ ih => exact ih
  | ofFactor _ ih => exact ih
  | ofProduct _ ih => exact ih
  | ofMixed _ ih => exact ih
  | star _ ih =>
      obtain ⟨token, rest, rfl, htoken⟩ := ih
      exact ⟨token, _, rfl, htoken⟩
  | plus _ ih =>
      obtain ⟨token, rest, rfl, htoken⟩ := ih
      exact ⟨token, _, rfl, htoken⟩
  | power _ _ ih =>
      obtain ⟨token, rest, rfl, htoken⟩ := ih
      exact ⟨token, _, rfl, htoken⟩
  | concatenation _ _ _ ih _ =>
      obtain ⟨token, rest, rfl, htoken⟩ := ih
      exact ⟨token, _, rfl, htoken⟩
  | mix _ _ ih _ =>
      obtain ⟨token, rest, rfl, htoken⟩ := ih
      exact ⟨token, _, rfl, htoken⟩
  | shuffle _ _ ih _ =>
      obtain ⟨token, rest, rfl, htoken⟩ := ih
      exact ⟨token, _, rfl, htoken⟩
  | union _ _ ih _ =>
      obtain ⟨token, rest, rfl, htoken⟩ := ih
      exact ⟨token, _, rfl, htoken⟩

/-- The tokens in front of the first end token. -/
def TokenStream.body (s : TokenStream L) : List (Token L) :=
  upToFinish s.tokens
where
  upToFinish : List (Token L × Nat) → List (Token L)
    | [] => []
    | (.finish, _) :: _ => []
    | (token, _) :: rest => token :: upToFinish rest

end FiniteState
