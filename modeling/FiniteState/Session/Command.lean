import FiniteState.Automaton.Build
import FiniteState.Construction.Determinization
import FiniteState.Construction.Regular
import FiniteState.Construction.Product
import FiniteState.Draw.Automaton
import FiniteState.Draw.Word
import FiniteState.Expression.Elimination
import FiniteState.Handle.Basic
import FiniteState.Term.Parser
/-!
What can be done in a session: automata are created from nothing or from others, and changed in
place.  Automata are known by the names of the registers that hold them.
-/

namespace FiniteState

/-- Why a command was not carried out. -/
inductive Failure where
  | state (error : NoSuchState)
  | parsing (error : SyntaxError)
  | spelling (error : SpellingError)
  | range (error : EmptyRange)
  /-- A transition mentions a state that was not created. -/
  | missing
  | register (name : String)
  | index (register : String) (index : Nat)
deriving DecidableEq, Repr

variable {L : Type} [Label L]

/-- How a new automaton comes about.  Operands are given by their registers. -/
inductive Recipe (L : Type) [Label L] where
  /-- The given automaton. -/
  | given (A : Automaton L)
  | built (blueprint : Blueprint L)
  | parsed (tokens : TokenStream L)
  /-- The image of an automaton under a construction. -/
  | unary (operand : String) (construction : Automaton L → Automaton L)
  /-- The image of two automata under a construction. -/
  | binary (left right : String) (construction : Automaton L → Automaton L → Automaton L)
  | drawn (draw : Draw Generator (Automaton L))

/-- A state of the automaton that is in a register. -/
structure Reference where
  register : String
  index : Nat
deriving DecidableEq, Repr

/-- A change of an automaton. -/
inductive Edit (L : Type) where
  | addState (initial terminal : Bool)
  | named (name : String)
  | initialNamed (name : String)
  | terminalNamed (name : String)
  | setInitial (state : Handle) (value : Bool)
  | setTerminal (state : Handle) (value : Bool)
  | addTransition (start : Handle) (label : Option L) (target : Handle)
  | path (name : String) (steps : List (Option L × String))

/-- What a change tells. -/
inductive Outcome where
  | state (handle : Handle)
  | isNew (value : Bool)
  | nothing
deriving DecidableEq, Repr

/-- What is done in a session. -/
inductive Command (L : Type) [Label L] where
  /-- Create an automaton and put it into a register. -/
  | create (register : String) (recipe : Recipe L)
  /-- Change the automaton in a register. -/
  | change (register : String) (edit : Edit L)
  /-- Start the generator anew. -/
  | reseed (seed : UInt64)
  | drawWords (alphabet : List L) (least greatest count : Nat)

/-- What a command answers if it is carried out. -/
inductive Answer (L : Type) [Label L] where
  | created (A : Automaton L)
  | changed (outcome : Outcome) (A : Automaton L)
  | reseeded
  | drawn (words : List (List L))

end FiniteState
