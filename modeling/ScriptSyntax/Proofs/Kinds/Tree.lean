import ScriptSyntax.Expr.Parser
import ScriptSyntax.Stmt.Basic
/-! # Trees and errors with other tokens -/

namespace ScriptSyntax

variable (change : Token → Token) (inputEnd : Location)

namespace Expr

mutual

/-- The expression with every token in it changed. -/
def mapTokens : Expr → Expr
  | binary left operator right =>
    binary left.mapTokens (change operator) right.mapTokens
  | logical left operator right =>
    logical left.mapTokens (change operator) right.mapTokens
  | grouping inner => grouping inner.mapTokens
  | unary operator operand => unary (change operator) operand.mapTokens
  | literal value => literal (change value)
  | reference name => reference (change name)
  | assignment target value => assignment (change target) value.mapTokens
  | call callee arguments closingParen =>
    call callee.mapTokens (mapTokensOfAll arguments) (change closingParen)

def mapTokensOfAll : List Expr → List Expr
  | [] => []
  | e :: es => e.mapTokens :: mapTokensOfAll es

end

@[simp] theorem mapTokensOfAll_eq (es : List Expr) :
    mapTokensOfAll change es = es.map (mapTokens change) := by
  induction es with
  | nil => rfl
  | cons e es ih => rw [mapTokensOfAll, ih, List.map_cons]

theorem mapTokens_combine (precedence : Precedence) (left : Expr) (operator : Token)
    (right : Expr) :
    (precedence.combine left operator right).mapTokens change =
      precedence.combine (left.mapTokens change) (change operator) (right.mapTokens change) := by
  cases precedence <;> rfl

end Expr

namespace Stmt

mutual

def mapTokens : Stmt → Stmt
  | expression value => expression (value.mapTokens change)
  | print value => print (value.mapTokens change)
  | var name initializer => var (change name) (initializer.map (Expr.mapTokens change))
  | block statements => block (mapTokensOfAll statements)
  | ifThen condition branch => ifThen (condition.mapTokens change) branch.mapTokens
  | ifElse condition branch alternative =>
    ifElse (condition.mapTokens change) branch.mapTokens alternative.mapTokens

def mapTokensOfAll : List Stmt → List Stmt
  | [] => []
  | s :: ss => s.mapTokens :: mapTokensOfAll ss

end

@[simp] theorem mapTokensOfAll_eq (ss : List Stmt) :
    mapTokensOfAll change ss = ss.map (mapTokens change) := by
  induction ss with
  | nil => rfl
  | cons s ss ih => rw [mapTokensOfAll, ih, List.map_cons]

end Stmt

/-- The site with its token changed, or where a changed input ends. -/
def Site.mapTokens : Site → Site
  | .token t => .token (change t)
  | .endOfInput _ => .endOfInput inputEnd

/-- The error with its token changed, or where a changed input ends. -/
def SyntaxError.mapTokens (e : SyntaxError) : SyntaxError :=
  { e with site := e.site.mapTokens change inputEnd }

end ScriptSyntax
