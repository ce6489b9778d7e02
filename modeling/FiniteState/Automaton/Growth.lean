import FiniteState.Automaton.Basic
/-!
Adding states, transitions and names to an automaton.  Each operation is one on the records that
keeps them in step.  An automaton may also be written down by names: a state comes into being when
its name is first mentioned, and a path adds a transition for each of its steps.
-/

namespace FiniteState

universe u

namespace Automaton

variable {L : Type u} [Label L]

def addState (A : Automaton L) (initial terminal : Bool) : Automaton L :=
  ⟨A.arena.addState ⟨initial, terminal⟩, A.wellFormed.addState _⟩

def mark (A : Automaton L) (p : Nat) (f : Flags → Flags) : Automaton L :=
  ⟨A.arena.mark p f, A.wellFormed.mark p f⟩

def setInitial (A : Automaton L) (p : Nat) (initial : Bool) : Automaton L :=
  A.mark p fun f => { f with initial }

def setTerminal (A : Automaton L) (p : Nat) (terminal : Bool) : Automaton L :=
  A.mark p fun f => { f with terminal }

/-- Add a transition between states of the automaton. -/
def link (A : Automaton L) (t : Transition L) (hstart : t.start < A.size)
    (htarget : t.target < A.size) : Automaton L :=
  ⟨A.arena.link t, A.wellFormed.link hstart htarget⟩

/-- Add a transition.  Nothing changes if it is there already, or if one of its ends is not a state
of the automaton. -/
def connect (A : Automaton L) (t : Transition L) : Automaton L :=
  if h : t.start < A.size ∧ t.target < A.size then A.link t h.1 h.2 else A

def giveName (A : Automaton L) (name : String) (p : Nat) (hp : p < A.size) : Automaton L :=
  ⟨A.arena.giveName name p, A.wellFormed.giveName name hp⟩

theorem size_addState (A : Automaton L) (initial terminal : Bool) :
    (A.addState initial terminal).size = A.size + 1 :=
  Array.size_push _

theorem lt_size_addState (A : Automaton L) (initial terminal : Bool) :
    A.size < (A.addState initial terminal).size :=
  (size_addState A initial terminal).symm ▸ Nat.lt_succ_self A.size

section Named

/-- The state with the given name, together with the automaton, to which the state is added if the
name is new. -/
def named (A : Automaton L) (name : String) : Nat × Automaton L :=
  match A.stateNamed? name with
  | some p => (p, A)
  | none =>
      (A.size, (A.addState false false).giveName name A.size
        (A.lt_size_addState false false))

def initialNamed (A : Automaton L) (name : String) : Nat × Automaton L :=
  let (p, A) := A.named name
  (p, A.setInitial p true)

def terminalNamed (A : Automaton L) (name : String) : Nat × Automaton L :=
  let (p, A) := A.named name
  (p, A.setTerminal p true)

/-- Go on from the state `p` to one named state after the other, and give the last one. -/
def pathFrom (A : Automaton L) (p : Nat) : List (Option L × String) → Nat × Automaton L
  | [] => (p, A)
  | (label, name) :: rest =>
      let (q, A) := A.named name
      (A.connect ⟨p, label, q⟩).pathFrom q rest

/-- Add a path that starts in the state with the given name. -/
def path (A : Automaton L) (name : String) (steps : List (Option L × String)) :
    Nat × Automaton L :=
  let (p, A) := A.named name
  A.pathFrom p steps

end Named

end Automaton

end FiniteState
