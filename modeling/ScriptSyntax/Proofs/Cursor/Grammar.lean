import ScriptSyntax.Proofs.Cursor.Walk
import ScriptSyntax.Proofs.Grammar.Expr
/-! # The grammar as walks

Every construct of the grammar has a production. It says how to walk through the construct if there is
a walk for each construct in it.
-/

namespace ScriptSyntax.Walk

/-- A construct of the grammar, or what is left of one, with what stands in front of that. -/
inductive Construct : Type → Type 1 where
  | expression : Construct Expr
  | operation (precedences : List Expr.Precedence) : Construct Expr
  | restOfOperation (precedence : Expr.Precedence) (tighter : List Expr.Precedence) (left : Expr) :
      Construct Expr
  | prefixed : Construct Expr
  | application : Construct Expr
  | restOfApplication (callee : Expr) : Construct Expr
  | restOfCall (callee : Expr) : Construct Expr
  | arguments : Construct (Array Expr)
  | moreArguments (earlier : Array Expr) : Construct (Array Expr)
  | primary : Construct Expr
  | initializer : Construct (Option Expr)
  | restOfVariable : Construct Stmt
  | restOfPrint : Construct Stmt
  | bareExpression : Construct Stmt
  | statement : Construct Stmt
  | restOfConditional : Construct Stmt
  | restOfBlock : Construct (List Stmt)
  | declarations (stops : TokenKind → Bool) (earlier : List Stmt) : Construct (List Stmt)
  | declaration : Construct (Option Stmt)

/-- A walk for each construct. -/
abbrev Grammar := ⦃α : Type⦄ → Construct α → Walk α

/-- Records an argument too many in front of the first one. -/
def recordIfFull (earlier : Array Expr) : Walk Unit := do
  if earlier.size = maxArguments then record (← errorHere .tooManyArguments) else return ()

/-- Drops what is left of a statement, unless it ends here. -/
def finishStatement : Walk Unit := do
  if (← atEnd) || (← check fun kind => kind = .rightBrace || kind.startsStatement) then return ()
  else synchronize

/-- The semicolon behind an expression. Where it is missing, that stops the walk if it must not be, and
is else recorded before the rest of the statement is dropped. -/
def semicolon : Walk Unit := do
  match ← attempt (expect .semicolon .noSemicolonAfterValue) with
  | .ok _ => return ()
  | .error e =>
    if (← current).options.strictSemicolons then throw e
    else
      record e
      finishStatement

namespace Grammar

variable (grammar : Grammar)

/-! ## Expressions -/

/-- A value, which may be assigned. -/
abbrev expression : Walk Expr := do
  let left ← grammar (.operation Expr.Precedence.tightestFirst.reverse)
  match ← takeIf (· = .equal) with
  | some equals =>
    let value ← nested (grammar .expression)
    match left with
    | .reference target => return .assignment target value
    | _ =>
      record ⟨.ofToken equals, .badAssignmentTarget⟩
      return left
  | none => return left

/-- Operands with operators of this precedence and tighter ones between them. -/
abbrev operation (precedence : Expr.Precedence) (tighter : List Expr.Precedence) : Walk Expr := do
  grammar (.restOfOperation precedence tighter (← grammar (.operation tighter)))

/-- The operators of one precedence behind `left`, with their right operands. -/
abbrev restOfOperation (precedence : Expr.Precedence) (tighter : List Expr.Precedence)
    (left : Expr) : Walk Expr := do
  match ← takeIf (fun kind => Expr.Precedence.ofKind? kind = some precedence) with
  | some operator =>
    let right ← grammar (.operation tighter)
    grammar (.restOfOperation precedence tighter (precedence.combine left operator right))
  | none => return left

abbrev prefixed : Walk Expr := do
  match ← takeIf (fun kind => kind = .bang || kind = .minus) with
  | some operator => return .unary operator (← nested (grammar .prefixed))
  | none => grammar .application

abbrev application : Walk Expr := do grammar (.restOfApplication (← grammar .primary))

/-- The calls behind what is called. -/
abbrev restOfApplication (callee : Expr) : Walk Expr := do
  match ← takeIf (· = .leftParen) with
  | some _ => grammar (.restOfApplication (← grammar (.restOfCall callee)))
  | none => return callee

/-- The arguments of a call, and the closing parenthesis. -/
abbrev restOfCall (callee : Expr) : Walk Expr := do
  let arguments ← grammar .arguments
  let closingParen ← expect .rightParen .noParenAfterArguments
  return .call callee arguments.toList closingParen

/-- Arguments with commas between them, or none in front of the closing parenthesis. -/
abbrev arguments : Walk (Array Expr) := do
  if ← check (· = .rightParen) then return #[] else grammar (.moreArguments #[])

/-- At least one argument behind earlier ones. -/
abbrev moreArguments (earlier : Array Expr) : Walk (Array Expr) := do
  recordIfFull earlier
  let argument ← nested (grammar .expression)
  match ← takeIf (· = .comma) with
  | some _ => grammar (.moreArguments (earlier.push argument))
  | none => return earlier.push argument

abbrev primary : Walk Expr := do
  match ← takeIf Expr.startsLiteral with
  | some value => return .literal value
  | none =>
  match ← takeIf (· = .identifier) with
  | some name => return .reference name
  | none =>
  match ← takeIf (· = .leftParen) with
  | some _ =>
    let inner ← nested (grammar .expression)
    let _ ← expect .rightParen .noParenAfterGroup
    return .grouping inner
  | none => throw (← errorHere .noExpression)

/-! ## Statements -/

/-- The first value of a variable, if it has one. -/
abbrev initializer : Walk (Option Expr) := do
  match ← takeIf (· = .equal) with
  | some _ => return some (← grammar .expression)
  | none => return none

/-- A variable, from behind the keyword. -/
abbrev restOfVariable : Walk Stmt := do
  let name ← expect .identifier .noVariableName
  let initializer ← grammar .initializer
  let _ ← expect .semicolon .noSemicolonAfterVariable
  return .var name initializer

abbrev restOfPrint : Walk Stmt := do
  let value ← grammar .expression
  let _ ← expect .semicolon .noSemicolonAfterValue
  return .print value

abbrev bareExpression : Walk Stmt := do
  let value ← grammar .expression
  semicolon
  return .expression value

abbrev statement : Walk Stmt := do
  match ← takeIf (· = .ifKeyword) with
  | some _ => nested (grammar .restOfConditional)
  | none =>
  match ← takeIf (· = .printKeyword) with
  | some _ => grammar .restOfPrint
  | none =>
  match ← takeIf (· = .leftBrace) with
  | some _ => return .block (← nested (grammar .restOfBlock))
  | none => grammar .bareExpression

/-- A condition in parentheses, a statement, and another one behind `else`. -/
abbrev restOfConditional : Walk Stmt := do
  let _ ← expect .leftParen .noParenAfterIf
  let condition ← grammar .expression
  let _ ← expect .rightParen .noParenAfterCondition
  let branch ← grammar .statement
  match ← takeIf (· = .elseKeyword) with
  | some _ => return .ifElse condition branch (← grammar .statement)
  | none => return .ifThen condition branch

/-- Declarations, and the closing brace. -/
abbrev restOfBlock : Walk (List Stmt) := do
  let statements ← grammar (.declarations (· = .rightBrace) [])
  let _ ← expect .rightBrace .noBraceAfterBlock
  return statements

/-- Declarations behind earlier ones, up to a token to stop at or the end of the input. -/
abbrev declarations (stops : TokenKind → Bool) (earlier : List Stmt) : Walk (List Stmt) := do
  if ← atEnd then return earlier
  else if ← check stops then return earlier
  else grammar (.declarations stops (earlier ++ (← grammar .declaration).toList))

/-- A variable or a statement, dropped where it is broken. -/
abbrev declaration : Walk (Option Stmt) :=
  recover do
    match ← takeIf (· = .varKeyword) with
    | some _ => grammar .restOfVariable
    | none => grammar .statement

end Grammar

/-- The walks that go into one another as the productions say. -/
@[simp] def grammar : Grammar
  | _, .expression => grammar.expression
  | _, .operation [] => grammar.prefixed
  | _, .operation (precedence :: tighter) => grammar.operation precedence tighter
  | _, .restOfOperation precedence tighter left => grammar.restOfOperation precedence tighter left
  | _, .prefixed => grammar.prefixed
  | _, .application => grammar.application
  | _, .restOfApplication callee => grammar.restOfApplication callee
  | _, .restOfCall callee => grammar.restOfCall callee
  | _, .arguments => grammar.arguments
  | _, .moreArguments earlier => grammar.moreArguments earlier
  | _, .primary => grammar.primary
  | _, .initializer => grammar.initializer
  | _, .restOfVariable => grammar.restOfVariable
  | _, .restOfPrint => grammar.restOfPrint
  | _, .bareExpression => grammar.bareExpression
  | _, .statement => grammar.statement
  | _, .restOfConditional => grammar.restOfConditional
  | _, .restOfBlock => grammar.restOfBlock
  | _, .declarations stops earlier => grammar.declarations stops earlier
  | _, .declaration => grammar.declaration
partial_fixpoint

/-! ## Readings -/

/-- Takes the errors out of the buffer. -/
def takeErrors : Walk (List SyntaxError) := do
  let errors := (← current).errors
  change fun cursor => { cursor with errors := [] }
  return errors

def readExpression : Walk (Reading (Option Expr)) := do
  match ← attempt (grammar .expression) with
  | .ok e => return ⟨some e, ← takeErrors⟩
  | .error e =>
    record e
    return ⟨none, ← takeErrors⟩

def readProgram : Walk (Reading (List Stmt)) := do
  let statements ← grammar (.declarations (fun _ => false) [])
  return ⟨statements, ← takeErrors⟩

end ScriptSyntax.Walk
