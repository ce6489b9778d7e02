import FiniteState.OrderedSet
import FiniteState.Text.Escape
/-!
Styles of text on a terminal.  A control sequence that ends with `m` switches attributes on and off
by codes.  A text in several lines is cut such that every line stands for itself: it starts by
switching on what is on behind the line before, and ends by switching everything off.
-/

namespace FiniteState.Text

/-- How characters are shown.  Colours are kept as the numbers that chose them. -/
structure Style where
  /-- The numbers of the attributes that are on. -/
  attributes : OrderedSet Nat
  font : Option Nat
  foreground : Option (List Nat)
  background : Option (List Nat)
  underline : Option (List Nat)
  /-- Whether everything has been switched off explicitly. -/
  isCleared : Bool
  /-- Whether a code without a known meaning may have changed more. -/
  isUncertain : Bool
deriving DecidableEq

namespace Style

def plain : Style :=
  ⟨∅, none, none, none, none, false, false⟩

/-- The style behind the code that switches everything off. -/
def cleared : Style :=
  { plain with isCleared := true }

/-- Attributes that have an end in common, with the number that switches them off.  The same number
is written to end `20`, but does not switch it off when read. -/
def groups : List (List Nat × Nat) :=
  [([1, 2], 22), ([3, 20], 23), ([4, 21], 24), ([5, 6], 25), ([7], 27), ([8], 28), ([9], 29),
   ([26], 50), ([51, 52], 54), ([53], 55), ([60, 61, 62, 63, 64], 65), ([73, 74], 75)]

/-- The attributes that `n` switches off. -/
def endedBy (n : Nat) : List Nat :=
  ((groups.filter fun group => group.2 == n).flatMap Prod.fst).filter (· != 20)

def isAttribute (n : Nat) : Bool :=
  groups.any fun group => group.1.contains n

def isEnding (n : Nat) : Bool :=
  groups.any fun group => group.2 == n

/-- Whether `n` is one of eight colours from `first` on. -/
def isColour (first n : Nat) : Bool :=
  first ≤ n && n < first + 8

/-- The effect of a single number. -/
def set (s : Style) (n : Nat) : Style :=
  if n = 0 then cleared
  else if isAttribute n then { s with attributes := s.attributes.insert n }
  else if isEnding n then
    { s with attributes := s.attributes.filter fun m => !(endedBy n).contains m }
  else if n = 10 then { s with font := none }
  else if 11 ≤ n ∧ n ≤ 19 then { s with font := some n }
  else if isColour 30 n || isColour 90 n then { s with foreground := some [n] }
  else if isColour 40 n || isColour 100 n then { s with background := some [n] }
  else if n = 39 then { s with foreground := none }
  else if n = 49 then { s with background := none }
  else if n = 59 then { s with underline := none }
  else { s with isUncertain := true }

/-- The effect of a colour that is given by several numbers, the first of which says what it is the
colour of. -/
def setColour (s : Style) (target : Nat) (colour : List Nat) : Style :=
  if target = 38 then { s with foreground := some (target :: colour) }
  else if target = 48 then { s with background := some (target :: colour) }
  else { s with underline := some (target :: colour) }

/-- The number that a code stands for.  Codes are written in decimal and without leading zeros. -/
def number? (code : String) : Option Nat :=
  code.toNat?.filter fun n => n.repr == code

/-- A part of a colour is a number below 256; whatever else is written there stands for 0. -/
def component (code : String) : Nat :=
  (code.toNat?.filter (· < 256)).getD 0

/-- The effect of the codes of a control sequence.  Behind the number of a target, `5` announces a
colour by its index and `2` one by its components; any other code is skipped there, and a colour
that is not complete has no effect. -/
def apply (s : Style) : List String → Style
  | [] => s
  | code :: rest =>
      match number? code with
      | none => { s with isUncertain := true }.apply rest
      | some n =>
          if n = 38 ∨ n = 48 ∨ n = 58 then
            match rest with
            | [] => s
            | ["5"] | ["2"] | ["2", _] | ["2", _, _] => s
            | "5" :: i :: rest => (s.setColour n [5, component i]).apply rest
            | "2" :: r :: g :: b :: rest =>
                (s.setColour n [2, component r, component g, component b]).apply rest
            | _ :: rest => s.apply rest
          else (s.set n).apply rest
termination_by codes => codes.length

/-- The codes of a control sequence.  One that has been torn apart has none. -/
def codes (sequence : List Char) : List String :=
  match sequence with
  | '\x1b' :: '[' :: rest => (String.ofList rest.dropLast).splitOn ";"
  | _ => []

def behind (s : Style) (text : List Char) : Style :=
  (pieces text).foldl
    (fun s piece => if piece.kind = some .style then s.apply (codes piece.text) else s) s

/-- Whether the style asks for more than another font. -/
def isNotable (s : Style) : Bool :=
  !s.attributes.isEmpty || s.foreground.isSome || s.background.isSome || s.underline.isSome ||
    s.isCleared

def sequence (numbers : List Nat) : String :=
  "\x1b[" ++ String.intercalate ";" (numbers.map Nat.repr) ++ "m"

def between (s : Style) (first last : Nat) : List (List Nat) :=
  (s.attributes.toList.filter fun n => first ≤ n && n ≤ last).map fun n => [n]

/-- What switches a style on. -/
def opening (s : Style) : String :=
  if s.isNotable then
    String.join ((s.between 1 9 ++ (s.font.map fun n => [n]).toList ++ s.between 20 29 ++
      s.foreground.toList ++ s.background.toList ++ s.underline.toList ++ s.between 50 75).map
        sequence)
  else ""

/-- The numbers from `first` to `last` that switch off some attribute that is on. -/
def endings (s : Style) (first last : Nat) : List Nat :=
  (groups.filter fun group =>
    first ≤ group.2 && group.2 ≤ last && group.1.any s.attributes.contains).map Prod.snd

/-- What switches a style off.  Where a code without a known meaning may have left something on,
everything is switched off at the end. -/
def closing (s : Style) : String :=
  if s.isNotable then
    String.join (((if s.isUncertain && s.isCleared then [0] else []) ++
      (s.font.map fun _ => 10).toList ++ s.endings 22 29 ++ (s.foreground.map fun _ => 39).toList ++
      (s.background.map fun _ => 49).toList ++ s.endings 50 65 ++
      (s.underline.map fun _ => 59).toList ++ s.endings 75 75 ++
      (if s.isUncertain then [0] else [])).map fun n => sequence [n])
  else ""

/-- A line that stands for itself, between the styles in front of it and behind it.  An empty line
stays empty. -/
def enclose (s after : Style) (line : String) : String :=
  if line.isEmpty then "" else s.opening ++ line ++ after.closing

/-- Let every line stand for itself. -/
def separate (s : Style) : List String → List String
  | [] => []
  | line :: rest =>
      let after := s.behind line.toList
      s.enclose after line :: after.separate rest

end Style

def separatedLines (text : String) : List String :=
  Style.plain.separate (text.splitOn "\n")

end FiniteState.Text
