import ScriptSyntax.Proofs.Parser.Compositional
import ScriptSyntax.Proofs.Progress
/-! # Compositional properties hold of all parsers of the grammar

They are special relations between parsers. Two parsers of the grammar are related if the parsers for
what stands deeper in them are.
-/

namespace ScriptSyntax

namespace Expr

open ScriptSyntax.Parser

variable {seen : Token → Prop} {R : (α : Type) → Parser α → Parser α → Prop}
  {deeper deeper' : Deeper}

/-! ## Expressions -/

/-- The parsers for what stands deeper are related. -/
structure Deeper.Related (deeper deeper' : Deeper)
    (R : (α : Type) → Parser α → Parser α → Prop) : Prop where
  operand : R Expr deeper.operand deeper'.operand
  inside : R Expr deeper.inside deeper'.inside

section congruent

variable (h : Congruent seen R)
include h

theorem related_chain (precedence : Precedence) {operand operand' : Parser Expr}
    (hoperand : R Expr operand operand') :
    R Expr (precedence.chain operand) (precedence.chain operand') :=
  h.bind hoperand fun first =>
    h.foldWhile (fun _ _ _ => h.bind hoperand fun _ => h.pure _) first

theorem related_operation {operand operand' : Parser Expr} (hoperand : R Expr operand operand') :
    R Expr (operation operand) (operation operand') := by
  unfold operation
  induction Precedence.tightestFirst generalizing operand operand' with
  | nil => exact hoperand
  | cons precedence others ih => exact ih (related_chain h precedence hoperand)

theorem related_primary (hdeeper : deeper.Related deeper' R) :
    R Expr (primary deeper) (primary deeper') := by
  refine h.onNext (fun kind => ?_) (h.fail _)
  split
  case h_7 =>
    exact .some fun _ _ => h.bind hdeeper.inside fun _ => h.bind (h.expect _ _) fun _ => h.pure _
  case h_8 => exact .none
  all_goals exact .some fun _ _ => h.pure _

theorem related_argument (hdeeper : deeper.Related deeper' R) (earlier : Array Expr) :
    R (Array Expr) (argument deeper earlier) (argument deeper' earlier) := by
  have hargument := h.bind hdeeper.inside fun e => h.pure (earlier.push e)
  unfold argument
  split
  · exact h.bind (h.reportNext _) fun _ => hargument
  · exact hargument

theorem related_restOfCall (hdeeper : deeper.Related deeper' R) (callee : Expr) :
    R Expr (restOfCall deeper callee) (restOfCall deeper' callee) := by
  have harguments : R (Array Expr) (arguments deeper) (arguments deeper') := by
    refine h.bind (h.nextIs _) fun next => ?_
    split
    · exact h.pure _
    · exact h.bind (related_argument h hdeeper _) fun first =>
        h.foldWhile (fun es _ _ => related_argument h hdeeper es) first
  exact h.bind harguments fun _ => h.bind (h.expect _ _) fun _ => h.pure _

theorem related_prefixed (hdeeper : deeper.Related deeper' R) :
    R Expr (prefixed deeper) (prefixed deeper') := by
  have happlication : R Expr (application deeper) (application deeper') :=
    h.bind (related_primary h hdeeper) fun first =>
      h.foldWhile (fun callee _ _ => related_restOfCall h hdeeper callee) first
  refine h.onNext (fun kind => ?_) happlication
  split
  case h_3 => exact .none
  all_goals exact .some fun _ _ => h.bind hdeeper.operand fun _ => h.pure _

theorem related_expression (hdeeper : deeper.Related deeper' R) :
    R Expr (expression deeper) (expression deeper') := by
  refine h.bind (related_operation h (related_prefixed h hdeeper)) fun left => ?_
  refine h.onNext (fun kind => ?_) (h.pure left)
  split
  · refine .some fun equals hequals => h.bind hdeeper.inside fun value => ?_
    unfold assign
    split
    · exact h.pure _
    · exact h.bind (h.report equals hequals _) fun _ => h.pure _
  · exact .none

theorem related_ofRoom (room : Nat) : (Deeper.ofRoom room).Related (.ofRoom room) R := by
  induction room with
  | zero => exact ⟨h.fail _, h.fail _⟩
  | succ room ih => exact ⟨related_prefixed h ih, related_expression h ih⟩

end congruent

theorem has_of_room {P : (α : Type) → Parser α → Prop} (h : Compositional seen P) (room : Nat) :
    P Expr (parser room) :=
  related_expression h.congruent (related_ofRoom h.congruent room)

end Expr

namespace Stmt

open ScriptSyntax.Parser

/-! ## Statements -/

/-- The same for parsers that go on behind errors, and for the semicolon that may be missing. -/
structure Compositional (seen : Token → Prop) (P : (α : Type) → Parser α → Prop) : Prop
    extends Parser.Compositional seen P where
  semicolon : P Unit semicolon
  resume : ∀ {α : Type} {p : Parser α}, P α p → P (Option α) p.resume

structure Congruent (seen : Token → Prop) (R : (α : Type) → Parser α → Parser α → Prop) : Prop
    extends Parser.Congruent seen R where
  semicolon : R Unit semicolon semicolon
  resume : ∀ {α : Type} {p p' : Parser α}, R α p p' → R (Option α) p.resume p'.resume

theorem Compositional.congruent {seen : Token → Prop} {P : (α : Type) → Parser α → Prop}
    (h : Compositional seen P) : Congruent seen fun α p _ => P α p where
  toCongruent := h.toCompositional.congruent
  semicolon := h.semicolon
  resume := h.resume

structure Deeper.Related (deeper deeper' : Deeper)
    (R : (α : Type) → Parser α → Parser α → Prop) : Prop where
  conditional : R Stmt deeper.conditional deeper'.conditional
  block : R Stmt deeper.block deeper'.block

variable {seen : Token → Prop} {R : (α : Type) → Parser α → Parser α → Prop}
  {expression expression' : Parser Expr} {deeper deeper' : Deeper}

section congruent

variable (h : Congruent seen R)
include h

theorem related_statement (hexpression : R Expr expression expression')
    (hdeeper : deeper.Related deeper' R) :
    R Stmt (statement expression deeper) (statement expression' deeper') := by
  have hbare : R Stmt (bareExpression expression) (bareExpression expression') :=
    h.bind hexpression fun _ => h.bind h.semicolon fun _ => h.pure _
  refine h.onNext (fun kind => ?_) hbare
  split
  case h_1 => exact .some fun _ _ => hdeeper.conditional
  case h_2 =>
    exact .some fun _ _ => h.bind hexpression fun _ => h.bind (h.expect _ _) fun _ => h.pure _
  case h_3 => exact .some fun _ _ => hdeeper.block
  case h_4 => exact .none

theorem related_restOfVariable (hexpression : R Expr expression expression') :
    R Stmt (restOfVariable expression) (restOfVariable expression') := by
  refine h.bind (h.expect _ _) fun name => h.bind ?_ fun _ =>
    h.bind (h.expect _ _) fun _ => h.pure _
  refine h.onNext (fun kind => ?_) (h.pure none)
  split
  · exact .some fun _ _ => h.bind hexpression fun _ => h.pure _
  · exact .none

theorem related_variableOrStatement (hexpression : R Expr expression expression')
    {statement statement' : Parser Stmt} (hstatement : R Stmt statement statement') :
    R Stmt (variableOrStatement expression statement)
      (variableOrStatement expression' statement') := by
  refine h.onNext (fun kind => ?_) hstatement
  split
  · exact .some fun _ _ => related_restOfVariable h hexpression
  · exact .none

theorem related_restOfConditional (hexpression : R Expr expression expression')
    {statement statement' : Parser Stmt} (hstatement : R Stmt statement statement') :
    R Stmt (restOfConditional expression statement)
      (restOfConditional expression' statement') := by
  refine h.bind (h.expect _ _) fun _ => h.bind hexpression fun condition =>
    h.bind (h.expect _ _) fun _ => h.bind hstatement fun branch =>
      h.onNext (fun kind => ?_) (h.pure _)
  split
  · exact .some fun _ _ => h.bind hstatement fun _ => h.pure _
  · exact .none

theorem related_restOfBlock {item item' : Parser (Option Stmt)} (hadvances : item.Advances)
    (hadvances' : item'.Advances) (hitem : R (Option Stmt) item item') :
    R Stmt (restOfBlock item) (restOfBlock item') :=
  h.bind (h.collectUntil hadvances hadvances' hitem) fun _ =>
    h.bind (h.expect _ _) fun _ => h.pure _

theorem related_ofRoom (room : Nat) : (Deeper.ofRoom room).Related (.ofRoom room) R := by
  induction room with
  | zero => exact ⟨h.fail _, h.fail _⟩
  | succ room ih =>
    have hdeeper := Expr.related_ofRoom h.toCongruent room
    have hexpression := Expr.related_expression h.toCongruent hdeeper
    have hstatement := related_statement h hexpression ih
    have hdeclaration := h.resume (related_variableOrStatement h hexpression hstatement)
    have hadvances := advances_of_room room
    exact ⟨related_restOfConditional h hexpression hstatement,
      related_restOfBlock h hadvances hadvances hdeclaration⟩

/-- What a declaration is before it goes on behind an error. -/
theorem related_declared_of_room (room : Nat) :
    let declared := variableOrStatement (Expr.parser room)
      (statement (Expr.parser room) (Deeper.ofRoom room))
    R Stmt declared declared :=
  have hexpression := Expr.related_expression h.toCongruent (Expr.related_ofRoom h.toCongruent room)
  related_variableOrStatement h hexpression
    (related_statement h hexpression (related_ofRoom h room))

end congruent

theorem has_declared_of_room {P : (α : Type) → Parser α → Prop} (h : Compositional seen P)
    (room : Nat) :
    P Stmt (variableOrStatement (Expr.parser room)
      (statement (Expr.parser room) (Deeper.ofRoom room))) :=
  related_declared_of_room h.congruent room

theorem has_of_room {P : (α : Type) → Parser α → Prop} (h : Compositional seen P) (room : Nat) :
    P (Option Stmt) (parser room) := h.resume (has_declared_of_room h room)

end Stmt

end ScriptSyntax
