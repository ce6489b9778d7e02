import FiniteState.Term.Basic
import FiniteState.Token.Scanner
/-!
Parsing.  From the weakest to the strongest binding, the grammar is

    sum     := mixed ('+' mixed)*
    mixed   := product (('#' | '|') product)*
    product := factor factor*
    factor  := atom ('*' | '^' | number)*
    atom    := letter | '0' | '1' | '(' sum ')'

and all operators associate to the left.  The parser reads the tokens one after the other.  It keeps
one frame for every open parenthesis, with what has been read at each level of the grammar, and it
either needs an atom next or has just read a factor.
-/

namespace FiniteState

universe u

variable {L : Type u}

/-- The two operators that share a level of the grammar. -/
inductive Interleaving where
  | mix
  | shuffle
deriving DecidableEq, Repr

def Interleaving.apply : Interleaving → Term L → Term L → Term L
  | mix => .mix
  | shuffle => .shuffle

/-- What stands in front of the present factor, back to the last open parenthesis. -/
structure Frame (L : Type u) where
  /-- What stands in front of the last `+`. -/
  sum : Option (Term L)
  /-- What stands in front of the last `#` or `|` behind it. -/
  mixed : Option (Term L × Interleaving)
  /-- The factors behind that. -/
  product : Option (Term L)
deriving DecidableEq, Repr

namespace Frame

def empty : Frame L := ⟨none, none, none⟩

/-- The product that ends with the factor `t`. -/
def closeProduct (f : Frame L) (t : Term L) : Term L :=
  match f.product with
  | none => t
  | some p => .concatenation p t

/-- The chain of `#` and `|` that ends with the factor `t`. -/
def closeMixed (f : Frame L) (t : Term L) : Term L :=
  match f.mixed with
  | none => f.closeProduct t
  | some (m, op) => op.apply m (f.closeProduct t)

/-- The sum that ends with the factor `t`. -/
def closeSum (f : Frame L) (t : Term L) : Term L :=
  match f.sum with
  | none => f.closeMixed t
  | some s => .union s (f.closeMixed t)

end Frame

/-- The parser between two tokens. -/
structure Parser (L : Type u) where
  /-- The frame of the innermost open parenthesis. -/
  frame : Frame L
  /-- The frames outside of it, the nearest one first. -/
  outer : List (Frame L)
  /-- The factor that was just read, `none` if an atom is needed. -/
  factor : Option (Term L)
deriving DecidableEq, Repr

namespace Parser

def begin : Parser L := ⟨.empty, [], none⟩

/-- The innermost open parenthesis ends with the factor `t`, and becomes a factor itself. -/
def close (p : Parser L) (t : Term L) : Except Expectation (Parser L) :=
  match p.outer with
  | [] => .error .operator
  | f :: outer => .ok ⟨f, outer, some (p.frame.closeSum t)⟩

def openParen (frame : Frame L) (outer : List (Frame L)) : Except Expectation (Parser L) :=
  if outer.length = maxNesting then .error .shallower
  else .ok ⟨.empty, frame :: outer, none⟩

def readAtom (p : Parser L) : Token L → Except Expectation (Parser L)
  | .letter l => .ok { p with factor := some (.letter l) }
  | .number 0 => .ok { p with factor := some .zero }
  | .number 1 => .ok { p with factor := some .one }
  | .leftParen => openParen p.frame p.outer
  | _ => .error .atom

def readBehind (p : Parser L) (t : Term L) : Token L → Except Expectation (Parser L)
  | .star => .ok { p with factor := some (.star t) }
  | .caret => .ok { p with factor := some (.plus t) }
  | .number n => .ok { p with factor := some (.power t n) }
  | .letter l =>
      .ok ⟨{ p.frame with product := some (p.frame.closeProduct t) }, p.outer,
        some (.letter l)⟩
  | .leftParen => openParen { p.frame with product := some (p.frame.closeProduct t) } p.outer
  | .mix => .ok ⟨⟨p.frame.sum, some (p.frame.closeMixed t, .mix), none⟩, p.outer, none⟩
  | .shuffle => .ok ⟨⟨p.frame.sum, some (p.frame.closeMixed t, .shuffle), none⟩, p.outer, none⟩
  | .plus => .ok ⟨⟨some (p.frame.closeSum t), none, none⟩, p.outer, none⟩
  | .rightParen => p.close t
  | .finish => .error (if p.outer.isEmpty then .operator else .closing)

def read (p : Parser L) (token : Token L) : Except Expectation (Parser L) :=
  match p.factor with
  | none => p.readAtom token
  | some t => p.readBehind t token

/-- The term that was read, if the text may end here. -/
def finish (p : Parser L) : Except Expectation (Term L) :=
  match p.factor, p.outer with
  | none, _ => .error .atom
  | some t, [] => .ok (p.frame.closeSum t)
  | some _, _ :: _ => .error .closing

/-- Blame a token for not being what was expected. -/
def blame {α : Type u} [Shown L] (token : Token L) (line : Nat) :
    Except Expectation α → Except SyntaxError α
  | .ok value => .ok value
  | .error expected => .error (.unexpected line (shown token) expected)

/-- Read the tokens of a stream up to its end. -/
def run [Shown L] (p : Parser L) :
    List (Token L × Nat) → Except LexicalError Nat → Except SyntaxError (Term L)
  | [], .error e => .error (.lexical e)
  | [], .ok line => blame (L := L) .finish line p.finish
  | (.finish, line) :: _, _ => blame (L := L) .finish line p.finish
  | (token, line) :: rest, ending =>
      match blame token line (p.read token) with
      | .error e => .error e
      | .ok p => p.run rest ending

end Parser

namespace TokenStream

variable [Shown L]

def parse (s : TokenStream L) : Except SyntaxError (Term L) :=
  Parser.begin.run s.tokens s.ending

end TokenStream

def parse (text : String) : Except SyntaxError (Automaton Char) :=
  (TokenStream.ofText Lexicon.characters text).parse.map Term.automaton

end FiniteState
