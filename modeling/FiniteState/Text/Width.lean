import FiniteState.Text.Columns
import FiniteState.Text.Emoji
/-!
The number of terminal columns that a text takes.  Most characters take their own columns, but some
sequences are shown as one sign: composed emoji, flags, and the ligatures of several scripts.  A
text is read from its end, and what has been read of a sequence decides how many columns the
character in front of it adds.
-/

namespace FiniteState.Text

/-- How the ligatures end that a character can be part of. -/
inductive LigatureEnd where
  /-- The Arabic letter Alef, which joins a Lam. -/
  | alef
  /-- The Hebrew letter Lamed, which joins an Alef. -/
  | lamed
  /-- The Buginese letter Ya. -/
  | ya
  /-- The Buginese vowel I with the letter Ya behind it. -/
  | vowelAndYa
  /-- A Tifinagh consonant. -/
  | consonant
  /-- A Tifinagh consonant with the joiner of consonants in front of it. -/
  | joinedConsonant
  /-- The second one of two Lisu tone letters. -/
  | tone
  /-- The Old Turkic letter Orkhon I. -/
  | orkhonI
  /-- A Khmer letter that can be written below another one. -/
  | subscript
deriving DecidableEq, Repr

/-- What has been read of a sequence, and stands behind the next character. -/
inductive Following where
  /-- Nothing that the character could join. -/
  | nothing
  /-- A selector for plain signs. -/
  | textSelector
  /-- A selector for emoji. -/
  | emojiSelector
  /-- One letter of a flag. -/
  | flagLetter
  /-- Several letters of flags. -/
  | flagLetters
  | skinTone
  | emoji
  /-- A joiner with an emoji behind it, perhaps with a keycap and a selector in front of it. -/
  | joined (keycap selected : Bool)
  /-- One letter of a flag in front of a joiner. -/
  | joinedLetter
  /-- An even number of letters of flags in front of a joiner. -/
  | joinedEven
  /-- An odd number of letters of flags in front of a joiner, more than one. -/
  | joinedOdd
  /-- The last letters of the name of a subdivision, which ends in front of a joiner. -/
  | tagLetters (count : Nat)
  /-- The last digits of such a name. -/
  | tagDigits (count : Nat)
  /-- A ligature, perhaps with a joiner and with selectors in front of what was read of it. -/
  | ligature (last : LigatureEnd) (joiner plain pictorial : Bool)
deriving DecidableEq, Repr

/-- Khmer letters that are written below another letter, when the sign Coeng is in front of them. -/
def subscriptRanges : List (Nat × Nat) :=
  [(0x1780, 0x1782), (0x1784, 0x1787), (0x1789, 0x178C), (0x178E, 0x1793), (0x1795, 0x1798),
   (0x179B, 0x179D), (0x17A0, 0x17A0), (0x17A2, 0x17A2), (0x17A7, 0x17A7), (0x17AB, 0x17AC),
   (0x17AF, 0x17AF)]

/-- The code points of the joining group Alef. -/
def alefRanges : List (Nat × Nat) :=
  [(0x622, 0x623), (0x625, 0x625), (0x627, 0x627), (0x671, 0x673), (0x675, 0x675), (0x773, 0x774),
   (0x870, 0x882)]

/-- The code points of the joining group Lam. -/
def lamRanges : List (Nat × Nat) :=
  [(0x644, 0x644), (0x6B5, 0x6B8), (0x76A, 0x76A), (0x8A6, 0x8A6), (0x8C7, 0x8C7)]

/-- The consonants of the script Tifinagh. -/
def consonantRanges : List (Nat × Nat) :=
  [(0x2D31, 0x2D65), (0x2D6F, 0x2D6F)]

/-- Characters without columns of their own that keep Arabic letters apart. -/
def separatingRanges : List (Nat × Nat) :=
  [(0x605, 0x605), (0x890, 0x891), (0x8E2, 0x8E2), (0x9BE, 0x9BE), (0x9D7, 0x9D7), (0xB3E, 0xB3E),
   (0xB57, 0xB57), (0xBBE, 0xBBE), (0xBD7, 0xBD7), (0xCC0, 0xCC0), (0xCC2, 0xCC2), (0xCC7, 0xCC8),
   (0xCCA, 0xCCB), (0xCD5, 0xCD6), (0xD3E, 0xD3E), (0xD4E, 0xD4E), (0xD57, 0xD57), (0xDCF, 0xDCF),
   (0xDDF, 0xDDF), (0x1160, 0x11FF), (0x180E, 0x180E), (0x1B35, 0x1B35), (0x1B3B, 0x1B3B),
   (0x1B3D, 0x1B3D), (0x1B43, 0x1B43), (0x200C, 0x200D), (0x2065, 0x2069), (0x302E, 0x302F),
   (0x3164, 0x3164), (0xA8FA, 0xA8FA), (0xD7B0, 0xD7C6), (0xD7CB, 0xD7FB), (0xFF9E, 0xFFA0),
   (0xFFF0, 0xFFF8), (0x111C2, 0x111C3), (0x1133E, 0x1133E), (0x11357, 0x11357),
   (0x114B0, 0x114B0), (0x114BD, 0x114BD), (0x115AF, 0x115AF), (0x11930, 0x11930),
   (0x1193F, 0x1193F), (0x11941, 0x11941), (0x11A3A, 0x11A3A), (0x11A84, 0x11A89),
   (0x11D46, 0x11D46), (0x11F02, 0x11F02), (0x1D165, 0x1D165), (0x1D16E, 0x1D172),
   (0xE0000, 0xE0000), (0xE0002, 0xE001F), (0xE0080, 0xE00FF), (0xE01F0, 0xE0FFF)]

/-- Combining marks that are ignored by default, and the joiner.  They can stand inside a
ligature. -/
def ignoredRanges : List (Nat × Nat) :=
  [(0x34F, 0x34F), (0x17B4, 0x17B5), (0x180B, 0x180D), (0x180F, 0x180F), (0x200D, 0x200D),
   (0xFE00, 0xFE0F), (0xE0100, 0xE01EF)]

/-- Whether Arabic letters join in spite of the character between them. -/
def isArabicMark (c : Char) : Bool :=
  inRanges columnlessRanges c && !inRanges separatingRanges c

def joiner : Char := '\u200D'

def emojiVariation : Char := '\uFE0F'

def textVariation : Char := '\uFE0E'

namespace Following

/-- A ligature of which the last character was read. -/
def endOf (last : LigatureEnd) : Following :=
  .ligature last false false false

/-- What a character offers to the one in front of it. -/
def ofChar (c : Char) : Following :=
  if c = textVariation then .textSelector
  else if c = emojiVariation then .emojiSelector
  else if c = '\u05DC' then endOf .lamed
  else if c = '\u1A10' then endOf .ya
  else if c = '\uA4FC' ∨ c = '\uA4FD' then endOf .tone
  else if c.toNat = 0x10C03 then endOf .orkhonI
  else if inRanges alefRanges c then endOf .alef
  else if inRanges subscriptRanges c then endOf .subscript
  else if inRanges consonantRanges c then endOf .consonant
  else if isFlagLetter c then .flagLetter
  else if isSkinTone c then .skinTone
  else if isEmoji c then .emoji
  else .nothing

def wantsEmoji : Following → Bool
  | emojiSelector => true
  | joined _ selected => selected
  | ligature _ _ _ pictorial => pictorial
  | _ => false

def wantsText : Following → Bool
  | textSelector => true
  | ligature _ _ plain _ => plain
  | _ => false

def selectEmoji : Following → Following
  | joined keycap _ => joined keycap true
  | ligature last joiner plain _ => ligature last joiner plain true
  | _ => emojiSelector

def selectText : Following → Following
  | ligature last joiner _ pictorial => ligature last joiner true pictorial
  | _ => textSelector

def dropEmoji : Following → Following
  | emojiSelector => nothing
  | joined keycap selected => if selected then nothing else joined keycap selected
  | ligature last joiner plain _ => ligature last joiner plain false
  | f => f

def dropText : Following → Following
  | textSelector => nothing
  | ligature last joiner _ pictorial => ligature last joiner false pictorial
  | f => f

/-- What a ligature becomes with an ignored character in front of it.  Arabic letters have their own
rule for the marks between them. -/
def skip? (c : Char) : Following → Option Following
  | ligature .alef _ _ _ => none
  | ligature last isJoined plain pictorial =>
      if c = joiner then some (ligature last true plain pictorial)
      else if inRanges ignoredRanges c then some (ligature last isJoined plain pictorial)
      else none
  | _ => none

/-- How a character continues a ligature, and the columns that it adds. -/
def joinLigature? (c : Char) : LigatureEnd → Bool → Option (Int × Following)
  | .alef, _ =>
      if inRanges lamRanges c then some (0, nothing)
      else if isArabicMark c then some (0, endOf .alef)
      else none
  | .lamed, isJoined => if isJoined ∧ c = '\u05D0' then some (0, nothing) else none
  | .subscript, _ => if c = '\u17D2' then some (-1, nothing) else none
  | .ya, isJoined => if isJoined ∧ c = '\u1A17' then some (0, endOf .vowelAndYa) else none
  | .vowelAndYa, _ => if c = '\u1A15' then some (0, nothing) else none
  | .consonant, isJoined =>
      if c = '\u2D7F' then some (1, endOf .joinedConsonant)
      else if isJoined ∧ inRanges consonantRanges c then some (0, nothing)
      else none
  | .joinedConsonant, _ => if inRanges consonantRanges c then some (-1, nothing) else none
  | .tone, _ => if inRanges [(0xA4F8, 0xA4FB)] c then some (0, nothing) else none
  | .orkhonI, isJoined => if isJoined ∧ c.toNat = 0x10C32 then some (0, nothing) else none

/-- How a character in front of a joiner continues an emoji. -/
def joinEmoji? (c : Char) : Option (Int × Following) :=
  if c = '\u20E3' then some (0, joined true false)
  else if isFlagLetter c then some (1, joinedLetter)
  else if isSkinTone c then some (0, skinTone)
  else if c.toNat = 0xE007F then some (0, tagLetters 0)
  else if isEmoji c then some (0, emoji)
  else none

/-- How a character continues the name of a subdivision: three to six letters, or up to four letters
and then three digits, behind a black flag. -/
def joinTag? (c : Char) (isComplete : Bool) (letters digits : Option Nat) :
    Option (Int × Following) :=
  if inRanges [(0xE0061, 0xE007A)] c then letters.map fun n => (0, tagLetters n)
  else if inRanges [(0xE0030, 0xE0039)] c then digits.map fun n => (0, tagDigits n)
  else if isComplete ∧ c.toNat = 0x1F3F4 then some (0, emoji)
  else none

/-- How a character continues what was read behind it, and the columns that it adds. -/
def join? (c : Char) : Following → Option (Int × Following)
  | ligature last isJoined _ _ => joinLigature? c last isJoined
  | flagLetter => if isFlagLetter c then some (1, flagLetters) else none
  | flagLetters =>
      if isFlagLetter c then some (1, flagLetters)
      else if c = joiner then some (0, joined false false)
      else none
  | skinTone =>
      if isPerson c then some (0, emoji)
      else if c = joiner then some (0, joined false false)
      else none
  | emoji => if c = joiner then some (0, joined false false) else none
  | joined false _ => joinEmoji? c
  | joinedLetter => if isFlagLetter c then some (-1, joinedEven) else none
  | joinedEven =>
      if isFlagLetter c then some (3, joinedOdd)
      else if c = joiner then some (0, joined false false)
      else none
  | joinedOdd =>
      if isFlagLetter c then some (-1, joinedEven)
      else if c = joiner then some (0, joined false false)
      else none
  | tagLetters n =>
      joinTag? c (decide (3 ≤ n)) (if n < 6 then some (n + 1) else none)
        (if n ≤ 4 then some 1 else none)
  | tagDigits n => joinTag? c (decide (n = 3)) none (if n < 3 then some (n + 1) else none)
  | _ => none

def alone (c : Char) : Int × Following :=
  (columns c, ofChar c)

/-- The columns that a character adds in front of what was read, and what then stands behind the
next one. -/
def before (c : Char) (f : Following) : Int × Following :=
  if f.wantsEmoji && isSelectable c then
    (if f = joined false true ∨ f = joined true true then 0 else 2, emoji)
  else
    let f := f.dropEmoji
    if c.toNat ≤ 0xA0 then (1, nothing)
    else if f = nothing then alone c
    else if c = emojiVariation then (0, f.selectEmoji)
    else if c = textVariation then (0, f.selectText)
    else if f.wantsText && isNarrowedBySelector c then (1, nothing)
    else
      let f := f.dropText
      match f.skip? c with
      | some f => (0, f)
      | none => (f.join? c).getD (alone c)

end Following

/-- The columns taken by a text on one line. -/
def width (text : List Char) : Nat :=
  (text.foldr (fun c (total : Int × Following) =>
    let (added, f) := Following.before c total.2
    (total.1 + added, f)) (0, .nothing)).1.toNat

end FiniteState.Text
