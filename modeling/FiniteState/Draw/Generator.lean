/-!
Draws of random values.  They are made from words of 64 bits that come from a source, which gives a
word and goes on to another state.  Nothing is assumed about the words.  A draw may reject some of
them, and then it is attempted again, so often as it is allowed to.

One source is a generator with a state of 64 bits, with which sessions are run.
-/

namespace FiniteState

universe u v

/-- A computation that draws random values from a source with the given states. -/
abbrev Draw (σ : Type) (α : Type u) := σ → α × σ

namespace Draw

variable {σ : Type}

/-- The low half and the high half of a product of 128 bits. -/
def halves (product : Nat) : UInt64 × UInt64 :=
  (UInt64.ofNat product, UInt64.ofNat (product / UInt64.size))

/-- 63 random bits as a fraction, rounded to the nearest floating point number. -/
def fractionOf (w : UInt64) : Float :=
  (w >>> 1).toFloat / 9223372036854775808.0

section Source

variable (bits : Draw σ UInt64)

def bool : Draw σ Bool := fun s =>
  let (w, s) := bits s
  (w &&& 1 == 0, s)

/-- A random fraction below 1.  What is rounded to 1 is rejected. -/
def fraction : Nat → Draw σ Float
  | 0 => fun s => (0.0, s)
  | attempts + 1 => fun s =>
      let (w, s) := bits s
      let x := fractionOf w
      if x < 1.0 then (x, s) else fraction attempts s

/-- The high half of the product of a random word with `n`, which lies below `n`.  A word is
rejected if the low half of the product is so small that its value would be too frequent. -/
def belowWithin (n : Nat) : Nat → Draw σ Nat
  | 0 => fun s => (0, s)
  | attempts + 1 => fun s =>
      let (w, s) := bits s
      let product := w.toNat * n
      if product % UInt64.size < (UInt64.size - n) % n then belowWithin n attempts s
      else (product / UInt64.size, s)

variable (attempts : Nat)

/-- A random number below `n`, for `n` from 1 to `2 ^ 64`. -/
def below (n : Nat) : Draw σ Nat := fun s =>
  if n = UInt64.size then
    let (w, s) := bits s
    (w.toNat, s)
  else belowWithin bits n attempts s

/-- A random number from `low` to `high`. -/
def between (low high : Nat) : Draw σ Nat := fun s =>
  let (n, s) := below bits attempts (high - low + 1) s
  (low + n, s)

/-- A random member of a list, which is given with a first member. -/
def member {α : Type u} (first : α) (rest : List α) : Draw σ α := fun s =>
  let (i, s) := below bits attempts (rest.length + 1) s
  ((first :: rest).getD i first, s)

end Source

/-- Draw one value for each member of a list, in order. -/
def forEach {α : Type u} {β : Type v} (draw : α → Draw σ β) : List α → Draw σ (List β)
  | [] => fun s => ([], s)
  | a :: rest => fun s =>
      let (b, s) := draw a s
      let (bs, s) := forEach draw rest s
      (b :: bs, s)

end Draw

/-- A generator of pseudorandom words. -/
structure Generator where
  state : UInt64
deriving DecidableEq, Repr

namespace Generator

def increment : UInt64 := 0x2d358dccaa6c78a5

def mask : UInt64 := 0x8bb84b93962eacc9

/-- The next word.  The state is moved on by a constant, and the product of the new state with a
mixed copy of it is folded. -/
def next : Draw Generator UInt64 := fun g =>
  let state := g.state + increment
  let (low, high) := Draw.halves (state.toNat * (state ^^^ mask).toNat)
  (low ^^^ high, ⟨state⟩)

/-- As many attempts as there are states. -/
def attempts : Nat := UInt64.size

end Generator

end FiniteState
