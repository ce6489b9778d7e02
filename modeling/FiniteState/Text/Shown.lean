/-!
How values are shown.  A flag is a sign, an absent value is `ε`, a sequence stands in double quotes
without any separator, a collection in braces and a pair in parentheses.
-/

namespace FiniteState

universe u v

/-- A type whose values have a readable text. -/
class Shown (α : Type u) where
  shown : α → String

export Shown (shown)

namespace Text

def showOption : Option String → String
  | none => "ε"
  | some text => text

def showSequence (texts : List String) : String :=
  "\x22" ++ String.join texts ++ "\x22"

def showCollection (texts : List String) : String :=
  "\x7b" ++ String.intercalate ", " texts ++ "\x7d"

def showPair (first second : String) : String :=
  "(" ++ first ++ ", " ++ second ++ ")"

end Text

variable {α : Type u} {β : Type v}

instance : Shown Char := ⟨Char.toString⟩

instance : Shown String := ⟨id⟩

instance : Shown Nat := ⟨Nat.repr⟩

instance : Shown Bool := ⟨fun b => if b then "+" else "-"⟩

instance [Shown α] : Shown (Option α) :=
  ⟨fun value => Text.showOption (value.map shown)⟩

instance [Shown α] : Shown (List α) :=
  ⟨fun values => Text.showSequence (values.map shown)⟩

instance [Shown α] [Shown β] : Shown (α × β) :=
  ⟨fun pair => Text.showPair (shown pair.1) (shown pair.2)⟩

end FiniteState
