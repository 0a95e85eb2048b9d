import ScriptSyntax.Binary64.Text
import ScriptSyntax.Location
import ScriptSyntax.Token.Kind
/-! # Tokens -/

namespace ScriptSyntax

/-- The value that a token stands for. -/
inductive Literal where
  | number (value : Binary64)
  | text (contents : String)
deriving DecidableEq, Repr

namespace Literal

/-- The text that shows a value: a text stands for itself. -/
def display : Literal → String
  | number value => String.ofList value.text
  | text contents => contents

/-- Equality of values, numbers compared as numbers. -/
def agrees : Literal → Literal → Bool
  | number x, number y => x.agrees y
  | text s, text t => s == t
  | _, _ => false

end Literal

/-- A stretch of source text with its kind, its value if it has one, and its place. -/
structure Token where
  kind : TokenKind
  lexeme : String
  literal : Option Literal
  location : Location
deriving DecidableEq, Repr

namespace Token

/-- The token behind the last lexeme. -/
def endOfInput (location : Location) : Token := ⟨.endOfInput, "", none, location⟩

/-- The kind, the lexeme and the value, or `null` where there is none. -/
def display (t : Token) : String :=
  t.kind.name ++ " " ++ t.lexeme ++ " " ++ (t.literal.map Literal.display).getD "null"

/-- Equality of tokens, numbers compared as numbers. -/
def agrees (s t : Token) : Bool :=
  s.kind == t.kind && s.lexeme == t.lexeme && s.location == t.location &&
    match s.literal, t.literal with
    | none, none => true
    | some x, some y => x.agrees y
    | _, _ => false

end Token

end ScriptSyntax
