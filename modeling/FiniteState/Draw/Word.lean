import FiniteState.Draw.Generator
/-!
Random words.
-/

namespace FiniteState

universe u

variable {L : Type u} {σ : Type}

/-- The least length that was asked for is larger than the greatest one. -/
structure EmptyRange where
  least : Nat
  greatest : Nat
deriving DecidableEq, Repr

namespace Draw

variable (bits : Draw σ UInt64) (attempts : Nat)

/-- A random word with a length from `least` to `greatest`.  Without letters it is empty, and
nothing is drawn. -/
def word (alphabet : List L) (least greatest : Nat) : Draw σ (List L) :=
  match alphabet with
  | [] => fun s => ([], s)
  | first :: rest => fun s =>
      let (length, s) := between bits attempts least greatest s
      forEach (fun _ => member bits attempts first rest) (List.replicate length first) s

/-- Random words.  There is no word to draw if there are letters, but no length is possible. -/
def words (alphabet : List L) (least greatest count : Nat) (s : σ) :
    Except EmptyRange (List (List L) × σ) :=
  if count ≠ 0 ∧ alphabet ≠ [] ∧ greatest < least then .error ⟨least, greatest⟩
  else
    .ok (forEach (fun _ => word bits attempts alphabet least greatest) (List.replicate count ()) s)

end Draw

end FiniteState
