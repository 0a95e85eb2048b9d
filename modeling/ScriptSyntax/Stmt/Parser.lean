import ScriptSyntax.Expr.Parser
import ScriptSyntax.Parser.Recovery
import ScriptSyntax.Stmt.Basic
/-! # Reading statements -/

namespace ScriptSyntax.Stmt

open ScriptSyntax.Parser

/-- The parsers for what stands one level deeper, behind the token that opens it. -/
structure Deeper where
  /-- A conditional, from behind its keyword. -/
  conditional : Parser Stmt
  /-- A block, from behind its opening brace. -/
  block : Parser Stmt

/-- A printed value, from behind the keyword. -/
def restOfPrint (expression : Parser Expr) : Parser Stmt := do
  let value ← expression
  let _ ← expect .semicolon .noSemicolonAfterValue
  return print value

/-- The semicolon behind an expression. Where it is missing, the statement is dropped if it must not
be, and else kept without the tokens up to the end of the statement. -/
def semicolon : Parser Unit :=
  onNext
    (fun
      | .semicolon => some fun _ => return ()
      | _ => none)
    (do
      if (← options).strictSemicolons then fail .noSemicolonAfterValue
      else
        reportNext .noSemicolonAfterValue
        finishStatement)

def bareExpression (expression : Parser Expr) : Parser Stmt := do
  let value ← expression
  semicolon
  return .expression value

def statement (expression : Parser Expr) (deeper : Deeper) : Parser Stmt :=
  onNext
    (fun
      | .ifKeyword => some fun _ => deeper.conditional
      | .printKeyword => some fun _ => restOfPrint expression
      | .leftBrace => some fun _ => deeper.block
      | _ => none)
    (bareExpression expression)

/-- A variable with its first value if it has one, from behind the keyword. -/
def restOfVariable (expression : Parser Expr) : Parser Stmt := do
  let name ← expect .identifier .noVariableName
  let initializer ←
    onNext
      (fun
        | .equal => some fun _ => return some (← expression)
        | _ => none)
      (return none)
  let _ ← expect .semicolon .noSemicolonAfterVariable
  return var name initializer

def variableOrStatement (expression : Parser Expr) (statement : Parser Stmt) : Parser Stmt :=
  onNext
    (fun
      | .varKeyword => some fun _ => restOfVariable expression
      | _ => none)
    statement

/-- A variable or a statement. It is dropped where it is broken. -/
def declaration (expression : Parser Expr) (statement : Parser Stmt) : Parser (Option Stmt) :=
  resume (variableOrStatement expression statement)

/-- A condition in parentheses, a statement, and another one behind `else`. What follows belongs to
the nearest conditional. -/
def restOfConditional (expression : Parser Expr) (statement : Parser Stmt) : Parser Stmt := do
  let _ ← expect .leftParen .noParenAfterIf
  let condition ← expression
  let _ ← expect .rightParen .noParenAfterCondition
  let branch ← statement
  onNext
    (fun
      | .elseKeyword => some fun _ => return ifElse condition branch (← statement)
      | _ => none)
    (return ifThen condition branch)

/-- Declarations, and the closing brace. -/
def restOfBlock (declaration : Parser (Option Stmt)) : Parser Stmt := do
  let statements ← collectUntil (· = .rightBrace) declaration
  let _ ← expect .rightBrace .noBraceAfterBlock
  return block statements

/-- The parsers for what stands deeper where there is room for that many levels. -/
def Deeper.ofRoom : Nat → Deeper
  | 0 => ⟨fail .tooDeep, fail .tooDeep⟩
  | room + 1 =>
    let expression := Expr.parser room
    let statement := statement expression (ofRoom room)
    ⟨restOfConditional expression statement, restOfBlock (declaration expression statement)⟩

/-- A declaration with room for that many levels in it. -/
def parser (room : Nat) : Parser (Option Stmt) :=
  let expression := Expr.parser room
  declaration expression (statement expression (Deeper.ofRoom room))

end ScriptSyntax.Stmt
