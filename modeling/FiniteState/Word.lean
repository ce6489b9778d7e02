import FiniteState.OrderedSet
/-!
Finite words over an alphabet in length-lexicographic order: shorter words come first, and words
of the same length are ordered by their first difference.  The words up to a length are listed one
length at a time.  An enumeration gives them one by one, by counting to the base of the size of the
alphabet, and so it needs no bound on their length.
-/

namespace FiniteState

universe u

/-- A finite sequence of labels. -/
abbrev Word (L : Type u) := List L

namespace Word

variable {L : Type u} [Ordered L]

/-- Put every letter of the alphabet in front of every word of a layer. -/
def extendLayer (alphabet : OrderedSet L) (layer : List (Word L)) : List (Word L) :=
  alphabet.toList.flatMap fun letter => layer.map (letter :: ·)

/-- The words of one length in lexicographic order. -/
def ofLength (alphabet : OrderedSet L) : Nat → List (Word L)
  | 0 => [[]]
  | n + 1 => extendLayer alphabet (ofLength alphabet n)

/-- The words of a layer and of the next `rounds` layers.  No word follows a layer that is empty. -/
def layersFrom (alphabet : OrderedSet L) (layer : List (Word L)) : Nat → List (Word L)
  | 0 => layer
  | rounds + 1 =>
      if layer = [] then []
      else layer ++ layersFrom alphabet (extendLayer alphabet layer) rounds

def upTo (alphabet : OrderedSet L) (bound : Nat) : List (Word L) :=
  layersFrom alphabet [[]] bound

theorem ofLength_eq_nil_of_le (alphabet : OrderedSet L) {m n : Nat} (le : m ≤ n)
    (h : ofLength alphabet m = []) : ofLength alphabet n = [] := by
  induction le with
  | refl => exact h
  | step _ ih => simp [ofLength, extendLayer, ih]

theorem layersFrom_ofLength (alphabet : OrderedSet L) (start rounds : Nat) :
    layersFrom alphabet (ofLength alphabet start) rounds =
      (List.range (rounds + 1)).flatMap fun n => ofLength alphabet (start + n) := by
  induction rounds generalizing start with
  | zero => simp [layersFrom]
  | succ rounds ih =>
      rw [layersFrom]
      split
      · rename_i h
        refine (List.flatMap_eq_nil_iff.2 fun n _ => ?_).symm
        exact ofLength_eq_nil_of_le alphabet (Nat.le_add_right start n) h
      · rw [← ofLength, ih, List.range_succ_eq_map (n := rounds + 1), List.flatMap_cons,
          List.flatMap_map]
        simp [Nat.add_assoc, Nat.add_comm 1]

/-- The words are those of every length up to the bound, the shortest first. -/
theorem upTo_eq_flatMap (alphabet : OrderedSet L) (bound : Nat) :
    upTo alphabet bound = (List.range (bound + 1)).flatMap (ofLength alphabet) := by
  have h := layersFrom_ofLength alphabet 0 bound
  simpa [upTo, ofLength] using h

end Word

/-- An enumeration of words.  The next word is known by the places of its letters in the alphabet,
which are the digits of a number to the base of the size of the alphabet. -/
structure Words (L : Type u) [Ordered L] where
  alphabet : OrderedSet L
  /-- The digits of the next word, unless the enumeration has ended. -/
  current : Option (List (Fin alphabet.size))
  /-- The greatest length of a word, if there is one. -/
  bound : Option Nat

namespace Words

variable {L : Type u} [Ordered L]

def ofLabels (labels : List L) : Words L :=
  ⟨.ofList labels, some [], none⟩

def upTo (labels : List L) (bound : Nat) : Words L :=
  { ofLabels labels with bound := some bound }

/-- Count one further.  If all digits are the greatest ones, they start again from zero and there is
a carry. -/
def increment {base : Nat} : List (Fin base) → List (Fin base) × Bool
  | [] => ([], true)
  | digit :: digits =>
      match increment digits with
      | (digits, false) => (digit :: digits, false)
      | (digits, true) =>
          if h : digit + 1 < base then (⟨digit + 1, h⟩ :: digits, false)
          else (⟨0, digit.pos⟩ :: digits, true)

/-- The digits that come next.  After a carry there is one more of them, unless that is more than
the bound admits, or there are no digits at all. -/
def advance {base : Nat} (bound : Option Nat) (digits : List (Fin base)) :
    Option (List (Fin base)) :=
  match increment digits with
  | (digits, false) => some digits
  | (_, true) =>
      let length := digits.length + 1
      if h : 0 < base ∧ bound.all (length ≤ ·) then some (List.replicate length ⟨0, h.1⟩)
      else none

def next (s : Words L) : Option (Word L) × Words L :=
  match s.current with
  | none => (none, s)
  | some digits =>
      (some (digits.map s.alphabet.toList.get), { s with current := advance s.bound digits })

/-- The first `count` words, or all of them if there are fewer. -/
def take : Nat → Words L → List (Word L)
  | 0, _ => []
  | count + 1, s =>
      match s.next with
      | (none, _) => []
      | (some w, s) => w :: take count s

end Words

end FiniteState
