import FiniteState.Automaton.Build
/-!
The regular operations: the automata for nothing, the empty word, a letter and a word, union,
concatenation and iteration of automata, and their images and preimages under maps of labels.  A map
may erase labels, which are then not read at all.
-/

namespace FiniteState

universe u v

variable {L : Type u}

/-- The transition between the states that come `n` later. -/
def Transition.shift (n : Nat) (t : Transition L) : Transition L :=
  ⟨t.start + n, t.label, t.target + n⟩

variable [Label L]

namespace Automaton

def zero : Automaton L :=
  ofParts [⟨true, false⟩] []

def one : Automaton L :=
  ofParts [⟨true, true⟩] []

def letter (l : L) : Automaton L :=
  ofParts [⟨true, false⟩, ⟨false, true⟩] [⟨0, some l, 1⟩]

def word (w : List L) : Automaton L :=
  ofParts ((List.range (w.length + 1)).map fun p => ⟨p == 0, p == w.length⟩)
    (w.zipIdx.map fun (l, p) => ⟨p, some l, p + 1⟩)

/-- The two automata side by side. -/
def union (A B : Automaton L) : Automaton L :=
  ofParts (A.flags ++ B.flags) (A.transitions ++ B.transitions.map (Transition.shift A.size))

/-- Silent transitions from each of the states in the first list to each of those in the second. -/
def bridge (ends starts : List Nat) : List (Transition L) :=
  ends.flatMap fun p => starts.map fun q => ⟨p, none, q⟩

/-- The two automata one after the other: the terminal states of the first one lead silently to the
initial states of the second one. -/
def concatenation (A B : Automaton L) : Automaton L :=
  ofParts
    (A.flags.map (fun f => { f with terminal := false }) ++
      B.flags.map fun f => { f with initial := false })
    (A.transitions ++ B.transitions.map (Transition.shift A.size) ++
      bridge A.terminals.toList (B.initials.toList.map (· + A.size)))

/-- Silent transitions from the terminal states back to the initial states. -/
def loops (A : Automaton L) : List (Transition L) :=
  bridge A.terminals.toList A.initials.toList

/-- The automaton repeated any number of times.  A new state in front, which is both initial and
terminal, leads silently to the former initial states. -/
def star (A : Automaton L) : Automaton L :=
  ofParts
    (⟨true, true⟩ :: A.flags.map fun f => { f with initial := false })
    ((A.transitions ++ A.loops).map (Transition.shift 1) ++
      bridge [0] (A.initials.toList.map (· + 1)))

/-- The automaton repeated at least once. -/
def plus (A : Automaton L) : Automaton L :=
  ofParts A.flags (A.transitions ++ A.loops)

def power (A : Automaton L) : Nat → Automaton L
  | 0 => one
  | n + 1 => (A.power n).concatenation A

section Morphism

variable {K : Type v} [Label K]

/-- Replace every label by its image.  Transitions on erased labels become silent. -/
def image (A : Automaton L) (h : L → Option K) : Automaton K :=
  ofParts A.flags (A.transitions.map fun t => ⟨t.start, t.label.bind h, t.target⟩)

/-- The automaton over the labels of `domain` that reads a label as `A` reads its image.  Erased
labels can be read in every state without leaving it. -/
def preimage (A : Automaton L) (domain : List K) (h : K → Option L) : Automaton K :=
  ofParts A.flags
    (A.transitions.flatMap (fun t =>
        match t.label with
        | none => [⟨t.start, none, t.target⟩]
        | some l => (domain.filter fun k => h k == some l).map fun k =>
            ⟨t.start, some k, t.target⟩) ++
      A.states.flatMap fun p =>
        (domain.filter fun k => (h k).isNone).map fun k => ⟨p, some k, p⟩)

end Morphism

end Automaton

end FiniteState
