import FiniteState.Automaton.Description
import FiniteState.Construction.Normal
import FiniteState.Expression.Printing
import FiniteState.Token.Scanner
/-!
The expression of a normal automaton by elimination of states.  A table holds, for every pair of
states, an expression for the words that lead from the one to the other without passing a state that
is still there.  Eliminating a state adds the ways around it, and in the end the table holds an
expression for the words that lead from the initial to the terminal state.
-/

namespace FiniteState

universe u

variable {L : Type u} [Label L]

/-- An expression for every pair of states, in rows by the first one. -/
abbrev EdgeTable (L : Type u) := Array (Array (Expression L))

namespace EdgeTable

def entry (table : EdgeTable L) (p q : Nat) : Expression L :=
  (table.getD p #[]).getD q .zero

/-- The expression for what one move reads. -/
def ofLabel : Option L → Expression L
  | none => .one
  | some l => .letter l

/-- One row of the table of an automaton: the moves out of a state, by their targets. -/
def row (A : Automaton L) (p : Nat) : Array (Expression L) :=
  (A.outgoing p).toList.foldl
    (fun row m => row.modify m.state fun e => e.add (ofLabel m.label))
    (Array.replicate A.size .zero)

def ofAutomaton (A : Automaton L) : EdgeTable L :=
  (A.states.map (row A)).toArray

/-- The row of `p` after `q` was eliminated, given the loops on `q` and the row of `q`. -/
def bypass (q : Nat) (loop : Expression L) (out row : Array (Expression L)) :
    Array (Expression L) :=
  let into := row.getD q .zero
  if into = .zero then row
  else row.mapIdx fun r e =>
    if r = q then .zero else e.add ((into.mul loop).mul (out.getD r .zero))

def eliminate (table : EdgeTable L) (q : Nat) : EdgeTable L :=
  let out := table.getD q #[]
  let loop := (out.getD q .zero).star
  table.mapIdx fun p row =>
    if p = q then row.map fun _ => .zero else bypass q loop out row

end EdgeTable

namespace Automaton

/-- An expression for the language of a normal automaton. -/
def expression (A : Automaton L) : Except NormalFault (Expression L) :=
  match A.endpoints with
  | .error fault => .error fault
  | .ok (i, t) =>
      let inner := A.states.filter fun q => q != i && q != t
      .ok ((inner.foldl EdgeTable.eliminate (EdgeTable.ofAutomaton A)).entry i t)

end Automaton

/-- Whether a text is read as one letter when letters are single characters. -/
def readsAsLetter (text : String) : Bool :=
  match text.toList with
  | [c] =>
      !Text.isBlank c && (Scanner.operator? (L := Char) c).isNone && !c.isDigit &&
        !Text.isControl c
  | _ => false

/-- Why an automaton has no text as an expression over characters. -/
inductive SpellingError where
  | notNormal (fault : NormalFault)
  | unrepresentable (text : String)
deriving DecidableEq, Repr

/-- The text of an expression for the language of a normal automaton, unless a letter in it has a
text that would not be read back. -/
def Automaton.spelling (A : Automaton L) : Except SpellingError String :=
  match A.expression with
  | .error fault => .error (.notNormal fault)
  | .ok e =>
      match (e.letters.map shown).find? fun text => !readsAsLetter text with
      | some text => .error (.unrepresentable text)
      | none => .ok e.text

namespace NormalFault

def reason : NormalFault → String
  | initials found => "expected one initial state, found " ++ shown found
  | terminals found => "expected one terminal state, found " ++ shown found
  | shared state => showState state ++ " is both initial and terminal"
  | entered state => "initial state " ++ showState state ++ " has incoming transitions"
  | left state => "terminal state " ++ showState state ++ " has outgoing transitions"

def message (fault : NormalFault) : String :=
  "automaton is not normalized: " ++ fault.reason

end NormalFault

def SpellingError.message : SpellingError → String
  | notNormal fault => fault.message
  | unrepresentable text =>
      "label " ++ Text.quoted text ++ " can not be written as a letter"

end FiniteState
