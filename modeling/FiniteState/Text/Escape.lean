/-!
Control sequences for terminals inside a text.  A sequence starts with the escape character, is not
shown and takes no columns.  A terminal reads bytes: a text counts by the bytes of its characters in
UTF-8, and a reader that is inside a sequence knows of a character beyond ASCII only its bytes.

A text is cut into pieces, and no character is lost.
-/

namespace FiniteState.Text

def escapeChar : Char := '\x1b'

/-- Where a reader stands between two characters. -/
inductive EscapeState where
  /-- Outside of control sequences. -/
  | ground
  /-- Behind the escape character. -/
  | escape
  /-- Behind the escape character and signs that belong to a short sequence. -/
  | short
  /-- Behind `[`, at the start of a sequence with parameters. -/
  | entry
  /-- Among parameters.  Counted are their separators, and the signs that mark the sequence. -/
  | parameters (separators marks : Nat)
  /-- Behind the parameters, among the signs that mark the sequence. -/
  | marked (separators marks : Nat)
  /-- Inside a sequence with misplaced parameters, which will have no effect. -/
  | malformed
  /-- Behind `P`, at the start of a string with parameters. -/
  | stringEntry
  /-- Among the parameters of a string. -/
  | stringParameters
  /-- Among the signs behind the parameters of a string. -/
  | stringMarked
  /-- Inside a string, which the string terminator ends. -/
  | data
  /-- Inside a message to the terminal, which a bell can end. -/
  | message
deriving DecidableEq, Repr

/-- What a sequence does that has ended.  One with parameters changes the style if it ends with `m`
and has no marks. -/
inductive SequenceKind where
  | style
  | control
deriving DecidableEq, Repr

/-- The effect of one character on a reader: where it stands behind the character, how many bytes it
counts as shown, and which sequence has ended with the character. -/
structure Reading where
  state : EscapeState
  counted : Nat
  ended : Option SequenceKind
deriving DecidableEq, Repr

/-- Nothing is shown, and nothing ends. -/
def Reading.silent (state : EscapeState) : Reading :=
  ⟨state, 0, none⟩

/-- Whether the character cancels a sequence. -/
def isCancel (c : Char) : Bool :=
  c = '\x18' || c = '\x1a'

/-- Whether a terminal carries the character out at once, also inside a sequence. -/
def isImmediate (c : Char) : Bool :=
  c < ' '

/-- The signs that mark a sequence, behind its parameters. -/
def isMark (c : Char) : Bool :=
  ' ' ≤ c && c ≤ '/'

/-- The digits and separators of parameters. -/
def isParameter (c : Char) : Bool :=
  '0' ≤ c && c ≤ ';'

def isSeparator (c : Char) : Bool :=
  c = ';' || c = ':'

/-- The signs that mark a sequence, in front of its parameters. -/
def isFrontMark (c : Char) : Bool :=
  '<' ≤ c && c ≤ '?'

def isFinal (c : Char) : Bool :=
  '@' ≤ c && c ≤ '~'

/-- Inside of sequences only immediate characters are shown. -/
def EscapeState.keep (state : EscapeState) (c : Char) : Reading :=
  ⟨state, if isImmediate c then 1 else 0, none⟩

/-- Read the end of a sequence with parameters.  A sequence with more than 32 parameters, or with
more than one mark, has no effect and does not count as ended. -/
def readFinal (separators marks : Nat) (c : Char) : Reading :=
  if separators < 32 ∧ marks ≤ 1 then
    ⟨.ground, 0, some (if c = 'm' ∧ marks = 0 then .style else .control)⟩
  else .silent .ground

/-- The bytes of single control characters beyond ASCII.  Other bytes that do not start a character
are not shown. -/
def isControlByte (b : UInt8) : Bool :=
  (0x80 ≤ b && b ≤ 0x9A && b != 0x90) || b == 0x9C

/-- The string terminator as a byte ends a string, also in the midst of a character; what is left of
the character is read as text. -/
def readData (c : Char) : Reading :=
  match (String.utf8EncodeChar c).dropWhile (· != 0x9C) with
  | [] => .silent .data
  | _ :: rest => ⟨.ground, rest.countP isControlByte, none⟩

/-- Read a character that neither starts nor cancels a sequence. -/
def EscapeState.readInside (c : Char) : EscapeState → Reading
  | ground => ⟨ground, c.utf8Size, none⟩
  | escape =>
      if c = '[' then .silent entry
      else if c = ']' then .silent message
      else if c = 'P' then .silent stringEntry
      else if c = 'X' ∨ c = '^' ∨ c = '_' then .silent data
      else if isMark c then .silent short
      else if '0' ≤ c ∧ c ≤ '~' then ⟨ground, 0, some .control⟩
      else escape.keep c
  | short =>
      if '0' ≤ c ∧ c ≤ '~' then ⟨ground, 0, some .control⟩
      else short.keep c
  | entry =>
      if isFinal c then readFinal 0 0 c
      else if isMark c then .silent (marked 0 1)
      else if isParameter c then .silent (parameters (if isSeparator c then 1 else 0) 0)
      else if isFrontMark c then .silent (parameters 0 1)
      else entry.keep c
  | parameters separators marks =>
      if isFinal c then readFinal separators marks c
      else if isMark c then .silent (marked separators (marks + 1))
      else if isSeparator c then .silent (parameters (separators + 1) marks)
      else if isFrontMark c then .silent malformed
      else (parameters separators marks).keep c
  | marked separators marks =>
      if isFinal c then readFinal separators marks c
      else if isMark c then .silent (marked separators (marks + 1))
      else if isParameter c || isFrontMark c then .silent malformed
      else (marked separators marks).keep c
  | malformed => if isFinal c then .silent ground else malformed.keep c
  | stringEntry =>
      if isFinal c then .silent data
      else if isMark c then .silent stringMarked
      else if isParameter c || isFrontMark c then .silent stringParameters
      else .silent stringEntry
  | stringParameters =>
      if isFinal c || isFrontMark c then .silent data
      else if isMark c then .silent stringMarked
      else .silent stringParameters
  | stringMarked =>
      if isFinal c || isParameter c || isFrontMark c then .silent data
      else .silent stringMarked
  | data => readData c
  | message => if c = '\x07' then ⟨ground, 0, some .control⟩ else .silent message

/-- Read a character.  The escape character starts a sequence and a cancelling one leads back to the
text, from wherever the reader stands; either one ends a message. -/
def EscapeState.read (state : EscapeState) (c : Char) : Reading :=
  let ended := if state = message then some .control else none
  if c = escapeChar then ⟨escape, 0, ended⟩
  else if isCancel c then ⟨ground, 1, ended⟩
  else state.readInside c

/-- The bytes that count as shown when a text is read from a state on. -/
def EscapeState.count (state : EscapeState) : List Char → Nat
  | [] => 0
  | c :: rest => (state.read c).counted + (state.read c).state.count rest

/-- A part of a text: characters that are shown if it has no kind, or a sequence. -/
structure Piece where
  kind : Option SequenceKind
  text : List Char
deriving DecidableEq, Repr

def Piece.isShown (piece : Piece) : Bool :=
  piece.kind.isNone

/-- Cut a text behind the characters that fit into a number of bytes. -/
def splitAtByte : Nat → List Char → List Char × List Char
  | _, [] => ([], [])
  | bytes, c :: rest =>
      if c.utf8Size ≤ bytes then
        let (front, back) := splitAtByte (bytes - c.utf8Size) rest
        (c :: front, back)
      else ([], c :: rest)

/-- The pieces of a text that ends with a sequence: as many bytes are shown as have been counted. -/
def piecesOfEnded (counted : Nat) (kind : SequenceKind) (text : List Char) : List Piece :=
  let (front, back) := splitAtByte counted text
  [⟨none, front⟩, ⟨some kind, back⟩]

/-- The pieces of a text in which no sequence ends.  It is shown up to the escape character behind
which nothing counts as shown.  The characters that were held back, the last one first, belong to
the first piece. -/
def piecesOfOpen (held : List Char) : List Char → List Piece
  | [] => [⟨none, held.reverse⟩]
  | c :: rest =>
      if c = escapeChar then
        ⟨none, (c :: held).reverse⟩ ::
          if EscapeState.ground.count rest = 0 then [⟨some .control, rest⟩]
          else piecesOfOpen [] rest
      else piecesOfOpen (c :: held) rest

/-- The pieces of a text that is read from a state on.  The characters that were held back since the
last sequence, the last one first, belong to the first pieces. -/
def piecesFrom (state : EscapeState) (counted : Nat) (held : List Char) : List Char → List Piece
  | [] => if counted = 0 then [⟨some .control, held.reverse⟩] else piecesOfOpen [] held.reverse
  | c :: rest =>
      let reading := state.read c
      match reading.ended with
      | none => piecesFrom reading.state (counted + reading.counted) (c :: held) rest
      | some kind =>
          piecesOfEnded (counted + reading.counted) kind (c :: held).reverse ++
            piecesFrom reading.state 0 [] rest

def pieces (text : List Char) : List Piece :=
  piecesFrom .ground 0 [] text

theorem append_splitAtByte (bytes : Nat) (text : List Char) :
    (splitAtByte bytes text).1 ++ (splitAtByte bytes text).2 = text := by
  induction text generalizing bytes with
  | nil => rfl
  | cons c rest ih =>
      rw [splitAtByte]
      split
      · simp [ih]
      · rfl

theorem flatMap_piecesOfEnded (counted : Nat) (kind : SequenceKind) (text : List Char) :
    (piecesOfEnded counted kind text).flatMap Piece.text = text := by
  simp [piecesOfEnded, append_splitAtByte]

theorem flatMap_piecesOfOpen (held text : List Char) :
    (piecesOfOpen held text).flatMap Piece.text = held.reverse ++ text := by
  induction text generalizing held with
  | nil => simp [piecesOfOpen]
  | cons c rest ih =>
      rw [piecesOfOpen]
      split
      · split <;> simp [ih]
      · simp [ih]

/-- No character is lost. -/
theorem flatMap_piecesFrom (state : EscapeState) (counted : Nat) (held text : List Char) :
    (piecesFrom state counted held text).flatMap Piece.text = held.reverse ++ text := by
  induction text generalizing state counted held with
  | nil =>
      rw [piecesFrom]
      split <;> simp [flatMap_piecesOfOpen]
  | cons c rest ih =>
      rw [piecesFrom]
      split
      · simp [ih]
      · rw [List.flatMap_append, flatMap_piecesOfEnded, ih]
        simp

end FiniteState.Text
