import ScriptSyntax.Proofs.Grammar.Written
import ScriptSyntax.Proofs.Parser.Confined
/-! # What reading an expression does not do

It takes no semicolon, no brace and no keyword of a statement, whatever is broken. Of the errors in an
expression only two do not stop it.
-/

namespace ScriptSyntax

/-- Whether an error in an expression does not stop it. -/
def SyntaxCause.isPassing : SyntaxCause → Bool
  | .badAssignmentTarget | .tooManyArguments => true
  | _ => false

theorem SyntaxCause.isPassing_iff (cause : SyntaxCause) :
    cause.isPassing = true ↔
      cause.message = "Invalid assignment target." ∨
        cause.message = "Can't have more than 255 arguments." := by
  cases cause <;> decide

namespace Expr

open ScriptSyntax.Parser

/-- The kinds of tokens that there are in expressions. -/
def inExpression : TokenKind → Bool
  | .equal | .comma | .rightParen => true
  | kind => startsExpression kind || (Precedence.ofKind? kind).isSome

/-- What reading an expression may do. -/
def bounds : Bounds where
  taken kind := inExpression kind = true
  told cause := cause.isPassing = true
  stopping cause := cause.isPassing = false

theorem confined_chain (precedence : Precedence) {operand : Parser Expr}
    (h : operand.Confined bounds) : (precedence.chain operand).Confined bounds := by
  refine h.bind fun first => .foldWhile (fun kind hkind => ?_) (fun _ _ =>
    h.bind fun _ => confined_pure _) first
  show inExpression kind = true
  revert hkind
  cases kind <;> simp [inExpression, startsExpression, startsLiteral, Precedence.ofKind?]

theorem confined_operation {operand : Parser Expr} (h : operand.Confined bounds) :
    (operation operand).Confined bounds := by
  unfold operation
  induction Precedence.tightestFirst generalizing operand with
  | nil => exact h
  | cons precedence others ih => exact ih (confined_chain precedence h)

structure Deeper.IsConfined (deeper : Deeper) : Prop where
  operand : deeper.operand.Confined bounds
  inside : deeper.inside.Confined bounds

variable {deeper : Deeper}

theorem confined_primary (h : deeper.IsConfined) : (primary deeper).Confined bounds := by
  refine confined_onNext (fun kind p hp => ?_) (confined_fail rfl)
  split at hp
  case h_8 => contradiction
  all_goals cases hp
  case h_7 =>
    exact ⟨rfl, fun _ => h.inside.bind fun _ => (confined_expect rfl rfl).bind fun _ =>
      confined_pure _⟩
  all_goals exact ⟨rfl, fun _ => confined_pure _⟩

theorem confined_argument (h : deeper.IsConfined) (earlier : Array Expr) :
    (argument deeper earlier).Confined bounds := by
  have hargument : (deeper.inside >>= fun e => pure (earlier.push e)).Confined bounds :=
    h.inside.bind fun _ => confined_pure _
  unfold argument
  split
  · exact (confined_reportNext rfl).bind fun _ => hargument
  · exact hargument

theorem confined_restOfCall (h : deeper.IsConfined) (callee : Expr) :
    (restOfCall deeper callee).Confined bounds := by
  have harguments : (arguments deeper).Confined bounds := by
    refine (confined_nextIs _).bind fun next => ?_
    split
    · exact confined_pure _
    · refine (confined_argument h _).bind fun first =>
        .foldWhile (fun kind hkind => ?_) (fun es _ => confined_argument h es) first
      obtain rfl : kind = .comma := by simpa using hkind
      rfl
  exact harguments.bind fun _ => (confined_expect rfl rfl).bind fun _ => confined_pure _

theorem confined_prefixed (h : deeper.IsConfined) : (prefixed deeper).Confined bounds := by
  have happlication : (application deeper).Confined bounds := by
    refine (confined_primary h).bind fun first =>
      .foldWhile (fun kind hkind => ?_) (fun callee _ => confined_restOfCall h callee) first
    obtain rfl : kind = .leftParen := by simpa using hkind
    rfl
  refine confined_onNext (fun kind p hp => ?_) happlication
  split at hp
  case h_3 => contradiction
  all_goals
    cases hp
    exact ⟨rfl, fun _ => h.operand.bind fun _ => confined_pure _⟩

theorem confined_expression (h : deeper.IsConfined) : (expression deeper).Confined bounds := by
  refine (confined_operation (confined_prefixed h)).bind fun left => ?_
  refine confined_onNext (fun kind p hp => ?_) (confined_pure left)
  split at hp
  · cases hp
    refine ⟨rfl, fun equals => h.inside.bind fun value => ?_⟩
    unfold assign
    split
    · exact confined_pure _
    · exact (confined_report rfl _).bind fun _ => confined_pure _
  · contradiction

theorem isConfined_ofRoom (room : Nat) : (Deeper.ofRoom room).IsConfined := by
  induction room with
  | zero => exact ⟨confined_fail rfl, confined_fail rfl⟩
  | succ room ih => exact ⟨confined_prefixed ih, confined_expression ih⟩

theorem confined_of_room (room : Nat) : (parser room).Confined bounds :=
  confined_expression (isConfined_ofRoom room)

end Expr

end ScriptSyntax
