/-! # Places in a text

A place is a line and a column, both counted from 1, columns in characters. Only a newline starts a
new line.
-/

namespace ScriptSyntax

/-- A line and a column. -/
structure Location where
  line : Nat
  column : Nat
deriving DecidableEq, Repr

namespace Location

/-- The place of the first character of a text. -/
def start : Location := ⟨1, 1⟩

/-- The place of what stands in no text. -/
def nowhere : Location := ⟨0, 0⟩

/-- The place behind a character that stands at `l`. -/
def advance (l : Location) (c : Char) : Location :=
  if c = '\n' then ⟨l.line + 1, 1⟩ else ⟨l.line, l.column + 1⟩

/-- The place behind a text that starts at `l`. -/
def after (l : Location) (text : List Char) : Location :=
  text.foldl advance l

@[simp] theorem after_nil (l : Location) : l.after [] = l := rfl

@[simp] theorem after_cons (l : Location) (c : Char) (text : List Char) :
    l.after (c :: text) = (l.advance c).after text := rfl

theorem after_append (l : Location) (a b : List Char) :
    l.after (a ++ b) = (l.after a).after b := by
  simp [after]

end Location

end ScriptSyntax
