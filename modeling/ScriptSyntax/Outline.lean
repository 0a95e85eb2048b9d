import ScriptSyntax.Stmt.Basic
/-! # The outline of a tree

The nodes of a tree in the order in which they are visited, each with its depth: a node before its
parts, the parts from left to right.
-/

namespace ScriptSyntax

/-- What else is told of a node: how many parts it has, or whether an optional one is there. -/
inductive Detail where
  | count (n : Nat)
  | flag (isPresent : Bool)
deriving DecidableEq, Repr

/-- One node of a tree. -/
structure Row where
  depth : Nat
  label : String
  token : Option Token
  detail : Option Detail
  location : Option Location
deriving DecidableEq, Repr

namespace Expr

def row (depth : Nat) (e : Expr) : Row :=
  match e with
  | binary _ operator _ => ⟨depth, "binary", operator, none, e.location⟩
  | logical _ operator _ => ⟨depth, "logical", operator, none, e.location⟩
  | grouping _ => ⟨depth, "grouping", none, none, e.location⟩
  | unary operator _ => ⟨depth, "unary", operator, none, e.location⟩
  | literal value => ⟨depth, "literal", value, none, e.location⟩
  | reference name => ⟨depth, "variable", name, none, e.location⟩
  | assignment target _ => ⟨depth, "assignment", target, none, e.location⟩
  | call _ arguments closingParen =>
    ⟨depth, "call", closingParen, some (.count arguments.length), e.location⟩

mutual

/-- The rows of an expression in front of further rows. -/
def outline (depth : Nat) (e : Expr) (further : List Row) : List Row :=
  e.row depth ::
    match e with
    | binary left _ right | logical left _ right =>
      left.outline (depth + 1) (right.outline (depth + 1) further)
    | grouping part | unary _ part | assignment _ part => part.outline (depth + 1) further
    | literal _ | reference _ => further
    | call callee arguments _ =>
      callee.outline (depth + 1) (outlineAll (depth + 1) arguments further)

def outlineAll (depth : Nat) (es : List Expr) (further : List Row) : List Row :=
  match es with
  | [] => further
  | e :: es => e.outline depth (outlineAll depth es further)

end

end Expr

namespace Stmt

def row (depth : Nat) : Stmt → Row
  | expression _ => ⟨depth, "expression_stmt", none, none, none⟩
  | print _ => ⟨depth, "print_stmt", none, none, none⟩
  | var name initializer => ⟨depth, "var_stmt", name, some (.flag initializer.isSome), none⟩
  | block statements => ⟨depth, "block_stmt", none, some (.count statements.length), none⟩
  | ifThen _ _ => ⟨depth, "if_stmt", none, some (.flag false), none⟩
  | ifElse _ _ _ => ⟨depth, "if_stmt", none, some (.flag true), none⟩

mutual

/-- The rows of a statement in front of further rows. -/
def outline (depth : Nat) (s : Stmt) (further : List Row) : List Row :=
  s.row depth ::
    match s with
    | expression value | print value | var _ (some value) => value.outline (depth + 1) further
    | var _ none => further
    | block statements => outlineAll (depth + 1) statements further
    | ifThen condition branch =>
      condition.outline (depth + 1) (branch.outline (depth + 1) further)
    | ifElse condition branch alternative =>
      condition.outline (depth + 1)
        (branch.outline (depth + 1) (alternative.outline (depth + 1) further))

def outlineAll (depth : Nat) (ss : List Stmt) (further : List Row) : List Row :=
  match ss with
  | [] => further
  | s :: ss => s.outline depth (outlineAll depth ss further)

end

end Stmt

end ScriptSyntax
