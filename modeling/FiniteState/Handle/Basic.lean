import FiniteState.Automaton.Growth
import FiniteState.Automaton.Reachability
/-!
Automata with an identity.  A handle names a state together with the automaton that it belongs to.
Every automaton carries a tag of its own, and a handle with another tag is foreign to it: changes
through a foreign handle fail, and looking through one finds nothing.

A change comes with the automaton as it is afterwards, also if the change failed.
-/

namespace FiniteState

universe u v

/-- A state of the automaton with the given tag. -/
structure Handle where
  tag : Nat
  index : Nat
deriving DecidableEq, Repr

/-- Handles are ordered by tag and then by index. -/
instance : Ordered Handle :=
  Ordered.byKey (fun h => (h.tag, h.index)) fun {a b} h => by
    cases a
    cases b
    simpa using h

instance : Shown Handle :=
  ⟨fun h => "q" ++ shown h.index⟩

/-- A set of handles, possibly of different automata. -/
abbrev HandleSet := OrderedSet Handle

/-- The handle does not belong to the automaton it was used with. -/
structure NoSuchState where
  handle : Handle
deriving DecidableEq, Repr

def NoSuchState.message (e : NoSuchState) : String :=
  "state " ++ shown e.handle ++ " does not belong to this automaton"

/-- An automaton with its identity. -/
structure Tagged (L : Type u) [Label L] where
  tag : Nat
  automaton : Automaton L

namespace Tagged

variable {L : Type u} [Label L]

def handle (T : Tagged L) (index : Nat) : Handle :=
  ⟨T.tag, index⟩

/-- The handle that is given out for a state.  Handles keep the number of the state in 32 bits. -/
def give (T : Tagged L) (p : Nat) : Handle :=
  T.handle (UInt32.ofNat p).toNat

/-- The handles of all states in the order in which the states were added. -/
def handles (T : Tagged L) : List Handle :=
  T.automaton.states.map T.give

def contains (T : Tagged L) (h : Handle) : Bool :=
  h.tag == T.tag && decide (h.index < T.automaton.size)

/-- The state that a handle names. -/
def locate (T : Tagged L) (h : Handle) : Except NoSuchState Nat :=
  if T.contains h then .ok h.index else .error ⟨h⟩

/-- The states that some handles name, foreign ones are left out. -/
def own (T : Tagged L) (handles : List Handle) : List Nat :=
  (handles.filter T.contains).map Handle.index

def initials (T : Tagged L) : HandleSet :=
  T.automaton.initials.image T.handle

section Inspection

/-- What there is to tell about the state that a handle names, the default for a foreign handle. -/
def inspect {α : Type v} (T : Tagged L) (h : Handle) (tell : Nat → α) (default : α) : α :=
  match T.locate h with
  | .ok p => tell p
  | .error _ => default

def isInitial (T : Tagged L) (h : Handle) : Bool :=
  T.inspect h T.automaton.isInitial false

def isTerminal (T : Tagged L) (h : Handle) : Bool :=
  T.inspect h T.automaton.isTerminal false

def nameOf? (T : Tagged L) (h : Handle) : Option String :=
  T.inspect h T.automaton.nameOf? none

def outgoing (T : Tagged L) (h : Handle) : OrderedSet (Move L) :=
  T.inspect h T.automaton.outgoing ∅

def incoming (T : Tagged L) (h : Handle) : OrderedSet (Move L) :=
  T.inspect h T.automaton.incoming ∅

def labelsFrom (T : Tagged L) (h : Handle) : OrderedSet (Option L) :=
  T.inspect h T.automaton.labelsFrom ∅

def successors (T : Tagged L) (h : Handle) (label : Option L) : List Handle :=
  (T.inspect h (T.automaton.successors · label) []).map T.give

def predecessors (T : Tagged L) (h : Handle) (label : Option L) : List Handle :=
  (T.inspect h (T.automaton.predecessors · label) []).map T.give

def hasTransition (T : Tagged L) (start : Handle) (label : Option L) (target : Handle) : Bool :=
  (T.successors start label).contains target

def stateNamed? (T : Tagged L) (name : String) : Option Handle :=
  (T.automaton.stateNamed? name).map T.give

/-- The states that can be reached silently. -/
def closure (T : Tagged L) (handles : List Handle) : HandleSet :=
  (T.automaton.closure (T.own handles)).image T.give

def step (T : Tagged L) (handles : List Handle) (label : L) : HandleSet :=
  OrderedSet.ofList (handles.flatMap (T.successors · (some label)))

end Inspection

section Changes

def mark (T : Tagged L) (h : Handle) (f : Flags → Flags) : Except NoSuchState Unit × Tagged L :=
  match T.locate h with
  | .error e => (.error e, T)
  | .ok p => (.ok (), { T with automaton := T.automaton.mark p f })

def setInitial (T : Tagged L) (h : Handle) (initial : Bool) : Except NoSuchState Unit × Tagged L :=
  T.mark h fun f => { f with initial }

def setTerminal (T : Tagged L) (h : Handle) (terminal : Bool) :
    Except NoSuchState Unit × Tagged L :=
  T.mark h fun f => { f with terminal }

/-- Add a transition, and tell whether it is new.  The start is looked up before the target, and
both before anything changes. -/
def addTransition (T : Tagged L) (start : Handle) (label : Option L) (target : Handle) :
    Except NoSuchState Bool × Tagged L :=
  match T.locate start with
  | .error e => (.error e, T)
  | .ok p =>
      match T.locate target with
      | .error e => (.error e, T)
      | .ok q =>
          let t : Transition L := ⟨p, label, q⟩
          (.ok (!T.automaton.hasTransition t), { T with automaton := T.automaton.connect t })

end Changes

end Tagged

end FiniteState
