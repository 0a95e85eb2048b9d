import ScriptSyntax.Proofs.Kinds.Parser
import ScriptSyntax.Proofs.Progress
/-! # The parsers of the grammar on changed tokens

Every parser of the grammar mirrors itself: it takes no decision on more than the kind of a token.
-/

namespace ScriptSyntax

open ScriptSyntax.Parser Relabeling

variable {r : Relabeling}

namespace Expr

/-- The parsers for what stands deeper mirror themselves. -/
structure Deeper.Mirrored (deeper : Deeper) (r : Relabeling) : Prop where
  operand : r.Mirrors (mapTokens r.token) deeper.operand deeper.operand
  inside : r.Mirrors (mapTokens r.token) deeper.inside deeper.inside

variable {deeper : Deeper}

theorem mirrors_chain (precedence : Precedence) {operand : Parser Expr}
    (hoperand : r.Mirrors (mapTokens r.token) operand operand) :
    r.Mirrors (mapTokens r.token) (precedence.chain operand) (precedence.chain operand) := by
  refine hoperand.bind fun first => mirrors_foldWhile (fun left operator => ?_) first
  refine hoperand.bind fun right => ?_
  rw [← mapTokens_combine]
  exact mirrors_pure _

theorem mirrors_operation {operand : Parser Expr}
    (hoperand : r.Mirrors (mapTokens r.token) operand operand) :
    r.Mirrors (mapTokens r.token) (operation operand) (operation operand) := by
  unfold operation
  induction Precedence.tightestFirst generalizing operand with
  | nil => exact hoperand
  | cons precedence others ih => exact ih (mirrors_chain precedence hoperand)

theorem mirrors_primary (hdeeper : deeper.Mirrored r) :
    r.Mirrors (mapTokens r.token) (primary deeper) (primary deeper) := by
  refine mirrors_onNext (fun kind => ?_) (mirrors_fail _)
  split
  case h_7 =>
    exact .some fun _ => hdeeper.inside.bind fun inner =>
      (mirrors_expect _ _).bind fun _ => mirrors_pure (grouping inner)
  case h_6 => exact .some fun name => mirrors_pure (reference name)
  case h_8 => exact .none
  all_goals exact .some fun value => mirrors_pure (literal value)

theorem mirrors_argument (hdeeper : deeper.Mirrored r) (earlier : Array Expr) :
    r.Mirrors (Array.map (mapTokens r.token)) (argument deeper earlier)
      (argument deeper (earlier.map (mapTokens r.token))) := by
  have hargument : r.Mirrors (Array.map (mapTokens r.token))
      (do return earlier.push (← deeper.inside))
      (do return (earlier.map (mapTokens r.token)).push (← deeper.inside)) := by
    refine hdeeper.inside.bind fun e => ?_
    rw [← Array.map_push]
    exact mirrors_pure _
  unfold argument
  rw [Array.size_map]
  split
  · exact (mirrors_reportNext _).bind fun _ => hargument
  · exact hargument

theorem mirrors_arguments (hdeeper : deeper.Mirrored r) :
    r.Mirrors (Array.map (mapTokens r.token)) (arguments deeper) (arguments deeper) := by
  have hnone := mirrors_pure (r := r) (g := Array.map (mapTokens r.token)) #[]
  have hfirst := mirrors_argument hdeeper #[]
  rw [Array.map_empty] at hnone hfirst
  refine (mirrors_nextIs _).bind fun next => ?_
  rw [id]
  split
  · exact hnone
  · refine hfirst.bind fun first => ?_
    exact mirrors_foldWhile (fun earlier _ => mirrors_argument hdeeper earlier) first

theorem mirrors_restOfCall (hdeeper : deeper.Mirrored r) (callee : Expr) :
    r.Mirrors (mapTokens r.token) (restOfCall deeper callee)
      (restOfCall deeper (callee.mapTokens r.token)) := by
  refine (mirrors_arguments hdeeper).bind fun args => (mirrors_expect _ _).bind fun paren => ?_
  have hcall : (call callee args.toList paren).mapTokens r.token =
      call (callee.mapTokens r.token) (args.map (mapTokens r.token)).toList (r.token paren) := by
    rw [mapTokens, mapTokensOfAll_eq, Array.toList_map]
  rw [← hcall]
  exact mirrors_pure _

theorem mirrors_prefixed (hdeeper : deeper.Mirrored r) :
    r.Mirrors (mapTokens r.token) (prefixed deeper) (prefixed deeper) := by
  have happlication : r.Mirrors (mapTokens r.token) (application deeper) (application deeper) :=
    (mirrors_primary hdeeper).bind fun first =>
      mirrors_foldWhile (fun callee _ => mirrors_restOfCall hdeeper callee) first
  refine mirrors_onNext (fun kind => ?_) happlication
  split
  case h_3 => exact .none
  all_goals
    exact .some fun operator => hdeeper.operand.bind fun operand =>
      mirrors_pure (unary operator operand)

theorem mirrors_assign (left : Expr) (equals : Token) (value : Expr) :
    r.Mirrors (mapTokens r.token) (assign left equals value)
      (assign (left.mapTokens r.token) (r.token equals) (value.mapTokens r.token)) := by
  have hbad {left : Expr} : r.Mirrors (mapTokens r.token)
      (do report (.token equals) .badAssignmentTarget; return left)
      (do report (.token (r.token equals)) .badAssignmentTarget; return left.mapTokens r.token) :=
    (mirrors_report equals _).bind fun _ => mirrors_pure left
  cases left with
  | reference target => exact mirrors_pure (assignment target value)
  | _ => exact hbad

theorem mirrors_expression (hdeeper : deeper.Mirrored r) :
    r.Mirrors (mapTokens r.token) (expression deeper) (expression deeper) := by
  refine (mirrors_operation (mirrors_prefixed hdeeper)).bind fun left => ?_
  refine mirrors_onNext (fun kind => ?_) (mirrors_pure left)
  cases kind
  case equal =>
    exact .some fun equals => hdeeper.inside.bind fun value => mirrors_assign left equals value
  all_goals exact .none

theorem mirrored_ofRoom (room : Nat) : (Deeper.ofRoom room).Mirrored r := by
  induction room with
  | zero => exact ⟨mirrors_fail _, mirrors_fail _⟩
  | succ room ih => exact ⟨mirrors_prefixed ih, mirrors_expression ih⟩

theorem mirrors_of_room (room : Nat) :
    r.Mirrors (mapTokens r.token) (parser room) (parser room) :=
  mirrors_expression (mirrored_ofRoom room)

end Expr

namespace Stmt

structure Deeper.Mirrored (deeper : Deeper) (r : Relabeling) : Prop where
  conditional : r.Mirrors (mapTokens r.token) deeper.conditional deeper.conditional
  block : r.Mirrors (mapTokens r.token) deeper.block deeper.block

theorem mirrors_semicolon : r.Mirrors id semicolon semicolon := by
  refine mirrors_onNext (fun kind => ?_) (mirrors_options.bind fun options => ?_)
  · cases kind
    case semicolon => exact .some fun _ => mirrors_pure ()
    all_goals exact .none
  · rw [id]
    split
    · exact mirrors_fail _
    · exact (mirrors_reportNext _).bind fun _ => mirrors_finishStatement

variable {expression : Parser Expr} {deeper : Deeper}

section expression

variable (hexpression : r.Mirrors (Expr.mapTokens r.token) expression expression)
include hexpression

theorem mirrors_statement (hdeeper : deeper.Mirrored r) :
    r.Mirrors (mapTokens r.token) (statement expression deeper) (statement expression deeper) := by
  have hbare : r.Mirrors (mapTokens r.token) (bareExpression expression)
      (bareExpression expression) :=
    hexpression.bind fun value => mirrors_semicolon.bind fun _ => mirrors_pure (Stmt.expression value)
  refine mirrors_onNext (fun kind => ?_) hbare
  cases kind
  case ifKeyword => exact .some fun _ => hdeeper.conditional
  case printKeyword =>
    exact .some fun _ => hexpression.bind fun value =>
      (mirrors_expect _ _).bind fun _ => mirrors_pure (print value)
  case leftBrace => exact .some fun _ => hdeeper.block
  all_goals exact .none

theorem mirrors_restOfVariable :
    r.Mirrors (mapTokens r.token) (restOfVariable expression) (restOfVariable expression) := by
  refine (mirrors_expect _ _).bind fun name => ?_
  refine Mirrors.bind (g := Option.map (Expr.mapTokens r.token)) ?_ fun initializer =>
    (mirrors_expect _ _).bind fun _ => mirrors_pure (var name initializer)
  refine mirrors_onNext (fun kind => ?_) (mirrors_pure none)
  cases kind
  case equal => exact .some fun _ => hexpression.bind fun value => mirrors_pure (some value)
  all_goals exact .none

theorem mirrors_variableOrStatement {statement : Parser Stmt}
    (hstatement : r.Mirrors (mapTokens r.token) statement statement) :
    r.Mirrors (mapTokens r.token) (variableOrStatement expression statement)
      (variableOrStatement expression statement) := by
  refine mirrors_onNext (fun kind => ?_) hstatement
  cases kind
  case varKeyword => exact .some fun _ => mirrors_restOfVariable hexpression
  all_goals exact .none

theorem mirrors_restOfConditional {statement : Parser Stmt}
    (hstatement : r.Mirrors (mapTokens r.token) statement statement) :
    r.Mirrors (mapTokens r.token) (restOfConditional expression statement)
      (restOfConditional expression statement) := by
  refine (mirrors_expect _ _).bind fun _ => hexpression.bind fun condition =>
    (mirrors_expect _ _).bind fun _ => hstatement.bind fun branch => ?_
  refine mirrors_onNext (fun kind => ?_) (mirrors_pure (ifThen condition branch))
  cases kind
  case elseKeyword =>
    exact .some fun _ => hstatement.bind fun alternative =>
      mirrors_pure (ifElse condition branch alternative)
  all_goals exact .none

end expression

theorem mirrors_restOfBlock {declaration : Parser (Option Stmt)} (hadvances : declaration.Advances)
    (hdeclaration : r.Mirrors (Option.map (mapTokens r.token)) declaration declaration) :
    r.Mirrors (mapTokens r.token) (restOfBlock declaration) (restOfBlock declaration) := by
  refine (mirrors_collectUntil hadvances hadvances hdeclaration).bind fun statements =>
    (mirrors_expect _ _).bind fun _ => ?_
  have hblock : (block statements).mapTokens r.token =
      block (statements.map (mapTokens r.token)) := by
    rw [mapTokens, mapTokensOfAll_eq]
  rw [← hblock]
  exact mirrors_pure _

theorem mirrors_declaration (room : Nat) (hdeeper : (Deeper.ofRoom room).Mirrored r) :
    r.Mirrors (Option.map (mapTokens r.token)) (parser room) (parser room) :=
  have hexpression := Expr.mirrors_of_room room
  (mirrors_variableOrStatement hexpression (mirrors_statement hexpression hdeeper)).resume

theorem mirrored_ofRoom (room : Nat) : (Deeper.ofRoom room).Mirrored r := by
  induction room with
  | zero => exact ⟨mirrors_fail _, mirrors_fail _⟩
  | succ room ih =>
    have hexpression := Expr.mirrors_of_room (r := r) room
    exact ⟨mirrors_restOfConditional hexpression (mirrors_statement hexpression ih),
      mirrors_restOfBlock (advances_of_room room) (mirrors_declaration room ih)⟩

theorem mirrors_of_room (room : Nat) :
    r.Mirrors (Option.map (mapTokens r.token)) (parser room) (parser room) :=
  mirrors_declaration room (mirrored_ofRoom room)

end Stmt

end ScriptSyntax
