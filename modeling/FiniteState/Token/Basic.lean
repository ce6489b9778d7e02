import FiniteState.Label
import FiniteState.Text.Quoted
/-!
The tokens of the expression syntax, the ways in which reading an expression can fail, and streams
of tokens as the parser takes them.
-/

namespace FiniteState

universe u v

/-- A token of the expression syntax. -/
inductive Token (L : Type u) where
  /-- `+`, the union. -/
  | plus
  /-- `#`, the synchronized product. -/
  | mix
  /-- `|`, the interleaving. -/
  | shuffle
  /-- `*`, any number of repetitions. -/
  | star
  /-- `^`, at least one repetition. -/
  | caret
  /-- In front of an expression 0 is nothing and 1 the empty word, behind one a number repeats
  it. -/
  | number (value : Nat)
  | leftParen
  | rightParen
  | letter (l : L)
  /-- The end of the text. -/
  | finish
deriving DecidableEq, Repr

namespace Token

variable {L : Type u} {K : Type v}

def map (f : L → K) : Token L → Token K
  | plus => plus
  | mix => mix
  | shuffle => shuffle
  | star => star
  | caret => caret
  | number value => number value
  | leftParen => leftParen
  | rightParen => rightParen
  | letter l => letter (f l)
  | finish => finish

instance [Shown L] : Shown (Token L) where
  shown
    | plus => "'+'"
    | mix => "'#'"
    | shuffle => "'|'"
    | star => "'*'"
    | caret => "'^'"
    | number value => "number " ++ shown value
    | leftParen => "'('"
    | rightParen => "')'"
    | letter l => "letter " ++ shown l
    | finish => "end of input"

end Token

/-- The deepest nesting of parentheses that can be read. -/
def maxNesting : Nat := 100

/-- What could have stood in place of an unexpected token. -/
inductive Expectation where
  | atom
  | operator
  | closing
  | shallower
deriving DecidableEq, Repr

def Expectation.message : Expectation → String
  | atom => "a letter, 0, 1 or '('"
  | operator => "an operator or end of input"
  | closing => "')'"
  | shallower => "at most " ++ shown maxNesting ++ " nested parentheses"

/-- A character that starts no token, and the line on which it stands. -/
structure LexicalError where
  line : Nat
  character : Char
deriving DecidableEq, Repr

/-- Why a text is not an expression.  An unexpected token is given as it is shown. -/
inductive SyntaxError where
  | unexpected (line : Nat) (token : String) (expected : Expectation)
  | lexical (error : LexicalError)
deriving DecidableEq, Repr

def SyntaxError.message : SyntaxError → String
  | unexpected line token expected =>
      "line " ++ shown line ++ ": unexpected " ++ token ++ ", expected " ++ expected.message
  | lexical error =>
      "line " ++ shown error.line ++ ": invalid character " ++ Text.quotedChar error.character

/-- Tokens with their lines, and what comes after them: the end of the text, given by its line, or
an error. -/
structure TokenStream (L : Type u) where
  tokens : List (Token L × Nat)
  ending : Except LexicalError Nat

namespace TokenStream

variable {L : Type u} {K : Type v}

def map (f : L → K) (s : TokenStream L) : TokenStream K :=
  ⟨s.tokens.map fun entry => (entry.1.map f, entry.2), s.ending⟩

/-- The stream of the given tokens.  Its end is on the line of the last one. -/
def ofList (tokens : List (Token L × Nat)) : TokenStream L :=
  ⟨tokens, .ok ((tokens.getLast?.map Prod.snd).getD 1)⟩

end TokenStream

end FiniteState
