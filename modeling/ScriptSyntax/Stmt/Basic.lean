import ScriptSyntax.Expr.Basic
/-! # Statements -/

namespace ScriptSyntax

inductive Stmt where
  | expression (value : Expr)
  | print (value : Expr)
  | var (name : Token) (initializer : Option Expr)
  | block (statements : List Stmt)
  | ifThen (condition : Expr) (branch : Stmt)
  | ifElse (condition : Expr) (branch alternative : Stmt)
deriving Repr

namespace Stmt

mutual

/-- Equality of statements, numbers compared as numbers. -/
def agrees : Stmt → Stmt → Bool
  | expression e, expression e' => e.agrees e'
  | print e, print e' => e.agrees e'
  | var n none, var n' none => n.agrees n'
  | var n (some e), var n' (some e') => n.agrees n' && e.agrees e'
  | block ss, block ss' => allAgree ss ss'
  | ifThen c s, ifThen c' s' => c.agrees c' && s.agrees s'
  | ifElse c s a, ifElse c' s' a' => c.agrees c' && s.agrees s' && a.agrees a'
  | _, _ => false

def allAgree : List Stmt → List Stmt → Bool
  | [], [] => true
  | s :: ss, s' :: ss' => s.agrees s' && allAgree ss ss'
  | _, _ => false

end

end Stmt

end ScriptSyntax
