import FiniteState.LookupSet
/-!
The memory of a search for a coinductive proof.  A pair is assumed to be related as soon as its
proof starts, so that cycles close.  When a proof fails, every assumption made since it started is
withdrawn, because it may depend on the failed one, and the pair is remembered as refuted.
-/

namespace FiniteState

universe u

/-- A state of the left automaton and a state of the right one. -/
abbrev StatePair := Nat × Nat

/-- What is known about pairs of states. -/
structure Memo where
  /-- The pairs that are taken to be related. -/
  assumed : LookupSet StatePair
  /-- The assumed pairs in the order in which they were assumed, the latest one first. -/
  log : List StatePair
  /-- The pairs that are not related. -/
  refuted : LookupSet StatePair

/-- A question whose answer may depend on the memory, and may add to it. -/
abbrev Inquiry := Memo → Bool × Memo

namespace Memo

def empty : Memo := ⟨∅, [], ∅⟩

/-- Whether a question about a pair is answered without a proof. -/
def knows (memo : Memo) (pair : StatePair) : Bool :=
  memo.refuted.contains pair || memo.assumed.contains pair

def refutes (memo : Memo) (pair : StatePair) : Bool :=
  memo.refuted.contains pair

/-- Take a pair to be related. -/
def assume (memo : Memo) (pair : StatePair) : Memo :=
  { memo with assumed := memo.assumed.insert pair, log := pair :: memo.log }

/-- Withdraw the latest assumptions, until `mark` of them are left. -/
def withdraw (memo : Memo) (mark : Nat) : Memo :=
  let withdrawn := memo.log.take (memo.log.length - mark)
  { memo with
    assumed := memo.assumed.eraseAll withdrawn
    log := memo.log.drop (memo.log.length - mark) }

def refute (memo : Memo) (pair : StatePair) : Memo :=
  { memo with refuted := memo.refuted.insert pair }

end Memo

namespace Inquiry

/-- Prove a pair by an inquiry under the assumption that the pair itself is related. -/
def prove (pair : StatePair) (obligations : Inquiry) : Inquiry := fun memo =>
  if memo.refuted.contains pair then (false, memo)
  else if memo.assumed.contains pair then (true, memo)
  else
    match obligations (memo.assume pair) with
    | (true, after) => (true, after)
    | (false, after) => (false, (after.withdraw memo.log.length).refute pair)

def every {α : Type u} (ask : α → Inquiry) : List α → Inquiry
  | [], memo => (true, memo)
  | a :: rest, memo =>
      match ask a memo with
      | (true, memo) => every ask rest memo
      | (false, memo) => (false, memo)

def some {α : Type u} (ask : α → Inquiry) : List α → Inquiry
  | [], memo => (false, memo)
  | a :: rest, memo =>
      match ask a memo with
      | (true, memo) => (true, memo)
      | (false, memo) => some ask rest memo

def and (first second : Inquiry) : Inquiry := fun memo =>
  match first memo with
  | (true, memo) => second memo
  | (false, memo) => (false, memo)

def answer (b : Bool) : Inquiry := fun memo => (b, memo)

end Inquiry

end FiniteState
