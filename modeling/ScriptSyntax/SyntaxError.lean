import ScriptSyntax.Limits
import ScriptSyntax.Token.Basic
/-! # Syntax errors -/

namespace ScriptSyntax

/-- What is wrong with a row of tokens. -/
inductive SyntaxCause where
  | noExpression
  | noParenAfterGroup
  | noParenAfterArguments
  | tooManyArguments
  | badAssignmentTarget
  | noVariableName
  | noSemicolonAfterVariable
  | noSemicolonAfterValue
  | noParenAfterIf
  | noParenAfterCondition
  | noBraceAfterBlock
  | tooDeep
deriving DecidableEq, Repr

def SyntaxCause.message : SyntaxCause → String
  | noExpression => "Expect expression."
  | noParenAfterGroup => "Expect ')' after expression."
  | noParenAfterArguments => "Expect ')' after arguments."
  | tooManyArguments => "Can't have more than " ++ toString maxArguments ++ " arguments."
  | badAssignmentTarget => "Invalid assignment target."
  | noVariableName => "Expect variable name."
  | noSemicolonAfterVariable => "Expect ';' after variable declaration."
  | noSemicolonAfterValue => "Expect ';' after value."
  | noParenAfterIf => "Expect '(' after 'if'."
  | noParenAfterCondition => "Expect ')' after if condition."
  | noBraceAfterBlock => "Expect '\x7d' after block."
  | tooDeep => "Expression nesting is too deep."

/-- Where an error is: at a token, or at the end of the input. -/
inductive Site where
  | token (t : Token)
  | endOfInput (location : Location)
deriving DecidableEq, Repr

namespace Site

/-- The site of a token, which may be the end of the input. -/
def ofToken (t : Token) : Site :=
  if t.kind = .endOfInput then endOfInput t.location else token t

def location : Site → Location
  | token t => t.location
  | endOfInput location => location

def display : Site → String
  | token t => "at '" ++ t.lexeme ++ "'"
  | endOfInput _ => "at end"

/-- The line that tells of something wrong at a site. -/
def report (site : Site) (message : String) : String :=
  "[line " ++ toString site.location.line ++ "] Error " ++ site.display ++ ": " ++ message

def agrees : Site → Site → Bool
  | token s, token t => s.agrees t
  | endOfInput l, endOfInput m => l == m
  | _, _ => false

end Site

/-- What is wrong, and where. -/
structure SyntaxError where
  site : Site
  cause : SyntaxCause
deriving DecidableEq, Repr

namespace SyntaxError

def display (e : SyntaxError) : String := e.site.report e.cause.message

/-- Equality of errors, numbers in the tokens compared as numbers. -/
def agrees (e f : SyntaxError) : Bool := e.site.agrees f.site && e.cause == f.cause

def allAgree : List SyntaxError → List SyntaxError → Bool
  | [], [] => true
  | e :: es, f :: fs => e.agrees f && allAgree es fs
  | _, _ => false

end SyntaxError

end ScriptSyntax
