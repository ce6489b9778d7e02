import FiniteState.Automaton.Build
import FiniteState.Draw.Generator
/-!
Random automata and random words.
-/

namespace FiniteState

universe u

variable {L : Type u} {σ : Type}

namespace Draw

section Source

variable (bits : Draw σ UInt64) (attempts : Nat)

def transition (density : Float) (t : Transition L) : Draw σ (List (Transition L)) := fun s =>
  let (x, s) := fraction bits attempts s
  (if x < density then [t] else [], s)

/-- Draw the flags of a state.  The first state is always initial, every other one with probability
`1 / size`; a state is terminal with probability `1 / 3`. -/
def flags (size p : Nat) : Draw σ Flags := fun s =>
  let (initial, s) :=
    if p = 0 then (true, s)
    else
      let (i, s) := below bits attempts size s
      (i == 0, s)
  let (x, s) := fraction bits attempts s
  (⟨initial, x < 1.0 / 3.0⟩, s)

/-- Draw the transitions between two states: for every letter with probability `density`, and a
silent one with a quarter of that. -/
def transitionsBetween (alphabet : List L) (density : Float) (ends : Nat × Nat) :
    Draw σ (List (Transition L)) := fun s =>
  let (ts, s) := forEach (fun l => transition bits attempts density ⟨ends.1, some l, ends.2⟩)
    alphabet s
  let (silent, s) := transition bits attempts (density / 4.0) ⟨ends.1, none, ends.2⟩ s
  (ts.flatten ++ silent, s)

def automaton [Label L] (alphabet : List L) (size : Nat) (density : Float) :
    Draw σ (Automaton L) := fun s =>
  let states := List.range size
  let (fs, s) := forEach (flags bits attempts size) states s
  let (ts, s) := forEach (transitionsBetween bits attempts alphabet density)
    (states.flatMap fun p => states.map fun q => (p, q)) s
  (.ofParts fs ts.flatten, s)

end Source

variable [Label L]

/-- An automaton in which every state has a transition for every letter.  The first state is
initial, a coin decides about each state whether it is terminal, and the targets of the transitions
are picked one after the other. -/
def deterministicBy (coin : Draw σ Bool) (pick : Nat → Draw σ Nat) (alphabet : List L)
    (size : Nat) : Draw σ (Automaton L) := fun s =>
  let states := List.range size
  let (fs, s) := forEach (fun p s =>
    let (terminal, s) := coin s
    (⟨p == 0, terminal⟩, s)) states s
  let (ts, s) := forEach (fun (entry : Nat × L) s =>
    let (q, s) := pick size s
    (⟨entry.1, some entry.2, q⟩, s))
    (states.flatMap fun p => alphabet.map fun l => (p, l)) s
  (.ofParts fs ts, s)

/-- A random deterministic automaton.  A state is terminal with probability `1 / 2`. -/
def deterministic (bits : Draw σ UInt64) (attempts : Nat) (alphabet : List L) (size : Nat) :
    Draw σ (Automaton L) :=
  deterministicBy (bool bits) (below bits attempts) alphabet size

end Draw

end FiniteState
