import FiniteState.Text.Classes
import FiniteState.Token.Basic
/-!
Reading tokens from a text.  Blanks are skipped, operators are single characters, and ASCII digits
form numbers below `2 ^ 64`.  What makes up a letter is left to a lexicon: a character in one
syntax, an identifier in the other one.
-/

namespace FiniteState

universe u

/-- What is left of a text, and the line of its first character. -/
structure Scanner where
  rest : List Char
  line : Nat
deriving DecidableEq, Repr

/-- How letters are read.  Given the first character and what follows it, a lexicon gives the letter
that starts there, if any, and what is left of the text. -/
abbrev Lexicon (L : Type u) := Char → List Char → Option L × List Char

namespace Lexicon

/-- Every single character is a letter, apart from control characters, which are dropped. -/
def characters : Lexicon Char := fun c rest =>
  if Text.isControl c then (none, rest) else (some c, rest)

def startsIdentifier (c : Char) : Bool :=
  Text.isAlphabetic c || c == '_'

def continuesIdentifier (c : Char) : Bool :=
  Text.isAlphanumeric c || c == '_'

/-- Letters are identifiers.  What starts none is left where it is. -/
def identifiers : Lexicon String := fun c rest =>
  if startsIdentifier c then
    (some (String.ofList (c :: rest.takeWhile continuesIdentifier)),
      rest.dropWhile continuesIdentifier)
  else (none, c :: rest)

end Lexicon

namespace Scanner

variable {L : Type u}

/-- The largest number that can be read. -/
def maxNumber : Nat := UInt64.size - 1

def ofText (text : String) : Scanner :=
  ⟨text.toList, 1⟩

def skipFrom (line : Nat) : List Char → Scanner
  | [] => ⟨[], line⟩
  | c :: rest =>
      if Text.isBlank c then skipFrom (if c = '\n' then line + 1 else line) rest
      else ⟨c :: rest, line⟩

def skipBlanks (s : Scanner) : Scanner :=
  skipFrom s.line s.rest

def operator? : Char → Option (Token L)
  | '+' => some .plus
  | '#' => some .mix
  | '|' => some .shuffle
  | '*' => some .star
  | '^' => some .caret
  | '(' => some .leftParen
  | ')' => some .rightParen
  | _ => none

def digit (c : Char) : Nat :=
  c.toNat - '0'.toNat

/-- Read the digits of a number that starts with `value`.  The first digit that makes the number too
large is consumed and given back. -/
def readNumber (value : Nat) : List Char → Except Char Nat × List Char
  | [] => (.ok value, [])
  | c :: rest =>
      if c.isDigit then
        let value := 10 * value + digit c
        if value ≤ maxNumber then readNumber value rest else (.error c, rest)
      else (.ok value, c :: rest)

/-- Read the next token.  At the end of the text the end token is read over and over. -/
def next (lexicon : Lexicon L) (s : Scanner) : Except LexicalError (Token L × Nat) × Scanner :=
  let s := s.skipBlanks
  match s.rest with
  | [] => (.ok (.finish, s.line), s)
  | c :: rest =>
      match operator? c with
      | some token => (.ok (token, s.line), ⟨rest, s.line⟩)
      | none =>
          if c.isDigit then
            match readNumber 0 (c :: rest) with
            | (.ok value, rest) => (.ok (.number value, s.line), ⟨rest, s.line⟩)
            | (.error c, rest) => (.error ⟨s.line, c⟩, ⟨rest, s.line⟩)
          else
            match lexicon c rest with
            | (some l, rest) => (.ok (.letter l, s.line), ⟨rest, s.line⟩)
            | (none, rest) => (.error ⟨s.line, c⟩, ⟨rest, s.line⟩)

/-- What the next `count` calls of `next` give, also after the end and after errors. -/
def calls (lexicon : Lexicon L) : Nat → Scanner → List (Except LexicalError (Token L × Nat))
  | 0, _ => []
  | count + 1, s =>
      let (outcome, s) := s.next lexicon
      outcome :: calls lexicon count s

/-- The tokens up to the end of the text or the first error.  Every token takes a character. -/
def streamFrom (lexicon : Lexicon L) : Nat → Scanner → TokenStream L
  | 0, s => ⟨[], .ok s.line⟩
  | characters + 1, s =>
      match s.next lexicon with
      | (.error e, _) => ⟨[], .error e⟩
      | (.ok (.finish, line), _) => ⟨[], .ok line⟩
      | (.ok entry, s) =>
          let rest := streamFrom lexicon characters s
          { rest with tokens := entry :: rest.tokens }

end Scanner

def TokenStream.ofText {L : Type u} (lexicon : Lexicon L) (text : String) : TokenStream L :=
  let s := Scanner.ofText text
  s.streamFrom lexicon (s.rest.length + 1)

end FiniteState
