import ScriptSyntax.Token.Basic
/-! # Expressions

An expression keeps the tokens that tell it apart from others of its form: operators, literals,
names, and the parenthesis that closes a call.
-/

namespace ScriptSyntax

inductive Expr where
  | binary (left : Expr) (operator : Token) (right : Expr)
  | logical (left : Expr) (operator : Token) (right : Expr)
  | grouping (inner : Expr)
  | unary (operator : Token) (operand : Expr)
  | literal (value : Token)
  | reference (name : Token)
  | assignment (target : Token) (value : Expr)
  | call (callee : Expr) (arguments : List Expr) (closingParen : Token)
deriving Repr

namespace Expr

/-- The place of the token that an expression is known by. A group is where its inside is. -/
def location : Expr → Location
  | binary _ operator _ | logical _ operator _ | unary operator _ => operator.location
  | grouping inner => inner.location
  | literal token | reference token | assignment token _ | call _ _ token => token.location

mutual

/-- Equality of expressions, numbers compared as numbers. -/
def agrees : Expr → Expr → Bool
  | binary l o r, binary l' o' r' => l.agrees l' && o.agrees o' && r.agrees r'
  | logical l o r, logical l' o' r' => l.agrees l' && o.agrees o' && r.agrees r'
  | grouping e, grouping e' => e.agrees e'
  | unary o e, unary o' e' => o.agrees o' && e.agrees e'
  | literal t, literal t' => t.agrees t'
  | reference t, reference t' => t.agrees t'
  | assignment t e, assignment t' e' => t.agrees t' && e.agrees e'
  | call e es t, call e' es' t' => e.agrees e' && allAgree es es' && t.agrees t'
  | _, _ => false

def allAgree : List Expr → List Expr → Bool
  | [], [] => true
  | e :: es, e' :: es' => e.agrees e' && allAgree es es'
  | _, _ => false

end

end Expr

end ScriptSyntax
