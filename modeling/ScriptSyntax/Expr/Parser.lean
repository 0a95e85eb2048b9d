import ScriptSyntax.Expr.Basic
import ScriptSyntax.Parser.Loop
/-! # Reading expressions

Binary operators associate to the left and bind by precedence. A prefix operator binds tighter, a
call tightest of all. An assignment binds loosest and associates to the right.
-/

namespace ScriptSyntax.Expr

open ScriptSyntax.Parser

/-! ## Binary operators -/

/-- How tight a binary operator binds, the loosest first. -/
inductive Precedence where
  | disjunction | conjunction | equality | comparison | sum | product
deriving DecidableEq, Repr

namespace Precedence

/-- The precedence of a binary operator. -/
def ofKind? : TokenKind → Option Precedence
  | .orKeyword => some disjunction
  | .andKeyword => some conjunction
  | .bangEqual | .equalEqual => some equality
  | .greater | .greaterEqual | .less | .lessEqual => some comparison
  | .minus | .plus => some sum
  | .slash | .star => some product
  | _ => none

/-- All of them, the tightest first. -/
def tightestFirst : List Precedence :=
  [product, sum, comparison, equality, conjunction, disjunction]

/-- The expression that an operator makes of its operands. -/
def combine : Precedence → Expr → Token → Expr → Expr
  | disjunction | conjunction => logical
  | _ => binary

/-- Operands with operators of one precedence between them, grouped to the left. -/
def chain (precedence : Precedence) (operand : Parser Expr) : Parser Expr := do
  let first ← operand
  foldWhile (fun kind => ofKind? kind = some precedence)
    (fun left operator => do return precedence.combine left operator (← operand)) first

end Precedence

/-- Operands with any binary operators between them. -/
def operation (operand : Parser Expr) : Parser Expr :=
  Precedence.tightestFirst.foldl (fun operand precedence => precedence.chain operand) operand

/-! ## Nesting -/

/-- The parsers for what stands one level deeper. -/
structure Deeper where
  /-- What a prefix operator applies to. -/
  operand : Parser Expr
  /-- What stands in a group, as an argument, or as an assigned value. -/
  inside : Parser Expr

/-- What is inside parentheses, and the closing one. -/
def group (deeper : Deeper) : Parser Expr := do
  let inner ← deeper.inside
  let _ ← expect .rightParen .noParenAfterGroup
  return grouping inner

def primary (deeper : Deeper) : Parser Expr :=
  onNext
    (fun
      | .falseKeyword | .trueKeyword | .nilKeyword | .number | .string =>
        some fun value => return literal value
      | .identifier => some fun name => return reference name
      | .leftParen => some fun _ => group deeper
      | _ => none)
    (fail .noExpression)

/-- One more argument behind `earlier`. The first one too many is told of, and read all the same. -/
def argument (deeper : Deeper) (earlier : Array Expr) : Parser (Array Expr) := do
  if earlier.size = maxArguments then reportNext .tooManyArguments
  return earlier.push (← deeper.inside)

/-- Arguments with commas between them, or none in front of the closing parenthesis. -/
def arguments (deeper : Deeper) : Parser (Array Expr) := do
  if ← nextIs .rightParen then return #[]
  let first ← argument deeper #[]
  foldWhile (· = .comma) (fun earlier _ => argument deeper earlier) first

/-- The arguments of a call, and the closing parenthesis. -/
def restOfCall (deeper : Deeper) (callee : Expr) : Parser Expr := do
  let args ← arguments deeper
  let closingParen ← expect .rightParen .noParenAfterArguments
  return call callee args.toList closingParen

/-- A primary expression, called any number of times. -/
def application (deeper : Deeper) : Parser Expr := do
  let first ← primary deeper
  foldWhile (· = .leftParen) (fun callee _ => restOfCall deeper callee) first

def prefixed (deeper : Deeper) : Parser Expr :=
  onNext
    (fun
      | .bang | .minus => some fun operator => return unary operator (← deeper.operand)
      | _ => none)
    (application deeper)

/-- The assignment that an equals sign makes of what stands on its two sides. Only a variable can
be assigned to: of anything else the left side is kept, and the sign is told of. -/
def assign (left : Expr) (equals : Token) (value : Expr) : Parser Expr :=
  match left with
  | reference target => return assignment target value
  | _ => do
    report (.token equals) .badAssignmentTarget
    return left

def expression (deeper : Deeper) : Parser Expr := do
  let left ← operation (prefixed deeper)
  onNext
    (fun
      | .equal => some fun equals => do assign left equals (← deeper.inside)
      | _ => none)
    (return left)

/-- The parsers for what stands deeper where there is room for that many levels. -/
def Deeper.ofRoom : Nat → Deeper
  | 0 => ⟨fail .tooDeep, fail .tooDeep⟩
  | room + 1 =>
    let deeper := ofRoom room
    ⟨prefixed deeper, expression deeper⟩

/-- An expression with room for that many levels in it. -/
def parser (room : Nat) : Parser Expr := expression (Deeper.ofRoom room)

end ScriptSyntax.Expr
