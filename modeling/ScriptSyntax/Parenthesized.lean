import ScriptSyntax.Stmt.Basic
/-! # The parenthesized form of a tree

An expression is written as its operator and its parts in parentheses, which shows how operators
group. The text is for reading, it is no source text.
-/

namespace ScriptSyntax

namespace Expr

/-- The text of a literal: words stand for themselves, and so does what has no value. -/
def literalText (value : Token) : String :=
  match value.kind, value.literal with
  | .trueKeyword, _ | .falseKeyword, _ | .nilKeyword, _ => value.lexeme
  | _, some x => x.display
  | _, none => value.lexeme

mutual

def parenthesized : Expr → String
  | binary left operator right | logical left operator right =>
    "(" ++ operator.lexeme ++ " " ++ left.parenthesized ++ " " ++ right.parenthesized ++ ")"
  | grouping inner => "(group " ++ inner.parenthesized ++ ")"
  | unary operator operand => "(" ++ operator.lexeme ++ " " ++ operand.parenthesized ++ ")"
  | literal value => literalText value
  | reference name => "var " ++ name.lexeme
  | assignment target value => "ass (" ++ target.lexeme ++ " " ++ value.parenthesized ++ ")"
  | call callee arguments _ =>
    "(call " ++ callee.parenthesized ++ argumentsParenthesized arguments ++ ")"

/-- The arguments, each behind a blank. -/
def argumentsParenthesized : List Expr → String
  | [] => ""
  | e :: es => " " ++ e.parenthesized ++ argumentsParenthesized es

end

end Expr

namespace Stmt

/-- A conditional without its alternative, from the texts of its parts. -/
def conditionalText (condition branch : String) : String :=
  "(if " ++ condition ++ "), \x7b\n" ++ branch ++ "\n\x7d"

mutual

def parenthesized : Stmt → String
  | expression value => "(stmt " ++ value.parenthesized ++ ")"
  | print value => "(print " ++ value.parenthesized ++ ")"
  | var name none => "(var " ++ name.lexeme ++ ")"
  | var name (some value) => "(var " ++ name.lexeme ++ " = " ++ value.parenthesized ++ ")"
  | block statements => "\x7b " ++ allParenthesized statements ++ " \x7d"
  | ifThen condition branch => conditionalText condition.parenthesized branch.parenthesized
  | ifElse condition branch alternative =>
    conditionalText condition.parenthesized branch.parenthesized ++
      " else \x7b\n" ++ alternative.parenthesized ++ "\n\x7d"

/-- The statements one behind the other. -/
def allParenthesized : List Stmt → String
  | [] => ""
  | s :: ss => s.parenthesized ++ allParenthesized ss

end

end Stmt

end ScriptSyntax
