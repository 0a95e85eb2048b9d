import ScriptSyntax.Proofs.Composition
/-! # Errors and the tokens that pay for them

An error is paid for by a token. A property of parsers may come with two numbers for that: how many
errors may be told of on credit, and how many more are paid for at the end. The rules for these
numbers lead through the whole grammar once and for all; a property that does without them keeps the
rules too.
-/

namespace ScriptSyntax

variable {α β : Type}

/-! ## Errors that drop a declaration -/

/-- Goes on behind an error as `resume` does, and tells of it as `mark` has it. -/
def Parser.resumeMarking (mark : SyntaxError → SyntaxError) (p : Parser α) :
    Parser (Option α) where
  run setting tokens :=
    let outcome := p.run setting tokens
    match outcome.result with
    | .ok a => ⟨.ok (some a), outcome.errors, outcome.rest⟩
    | .error e => ⟨.ok none, outcome.errors ++ [mark e], dropStatement outcome.rest⟩
  rest_suffix setting tokens := by
    dsimp only
    split
    · exact p.rest_suffix setting tokens
    · exact (dropStatement_suffix _).trans (p.rest_suffix setting tokens)

namespace Stmt

open ScriptSyntax.Parser

/-- The parsers for what stands deeper, where errors that drop a declaration are told of as `mark`
has it. -/
def Deeper.marking (mark : SyntaxError → SyntaxError) : Nat → Deeper
  | 0 => ⟨fail .tooDeep, fail .tooDeep⟩
  | room + 1 =>
    let expression := Expr.parser room
    let statement := statement expression (marking mark room)
    ⟨restOfConditional expression statement,
      restOfBlock (resumeMarking mark (variableOrStatement expression statement))⟩

/-- What `mark` is applied to when a declaration is read are the errors that drop it, or one inside
of it. -/
def marking (mark : SyntaxError → SyntaxError) (room : Nat) : Parser (Option Stmt) :=
  let expression := Expr.parser room
  resumeMarking mark (variableOrStatement expression (statement expression (.marking mark room)))

theorem deeper_marking_id (room : Nat) : Deeper.marking id room = Deeper.ofRoom room := by
  induction room with
  | zero => rfl
  | succ room ih =>
    unfold Deeper.marking Deeper.ofRoom
    rw [ih]
    rfl

theorem marking_id (room : Nat) : marking id room = parser room := by
  unfold marking
  rw [deeper_marking_id]
  rfl

end Stmt

namespace Parser

variable {mark : SyntaxError → SyntaxError} {p : Parser α} {setting : Setting}
  {tokens rest : List Token} {errors : List SyntaxError}

theorem run_resumeMarking_of_ok {a : α} (h : p.run setting tokens = ⟨.ok a, errors, rest⟩) :
    (p.resumeMarking mark).run setting tokens = ⟨.ok (some a), errors, rest⟩ := by
  simp [resumeMarking, h]

theorem run_resumeMarking_of_error {e : SyntaxError}
    (h : p.run setting tokens = ⟨.error e, errors, rest⟩) :
    (p.resumeMarking mark).run setting tokens =
      ⟨.ok none, errors ++ [mark e], dropStatement rest⟩ := by
  simp [resumeMarking, h]

theorem Advances.resumeMarking (h : p.resume.Advances) : (p.resumeMarking mark).Advances := by
  intro setting t rest
  have hresume := h setting t rest
  rcases hrun : p.run setting (t :: rest) with ⟨e | a, errors, left⟩
  · rw [run_resume_of_error hrun] at hresume
    rwa [run_resumeMarking_of_error hrun]
  · rw [run_resume_of_ok hrun] at hresume
    rwa [run_resumeMarking_of_ok hrun]

end Parser

/-! ## The rules -/

/-- A property of parsers with numbers. A token that is taken pays for one error more, an error that
is told of on the way is one less. Something is left before what goes on, since that may be stopped
by an error of its own. -/
structure Parser.Accounted (P : (α : Type) → (credit saved : Nat) → Parser α → Prop) : Prop where
  pure : ∀ {α : Type} {credit saved : Nat} (a : α), saved ≤ credit → P α credit saved (pure a)
  nextIs : ∀ (kind : TokenKind) (credit : Nat), P Bool credit credit (nextIs kind)
  fail : ∀ {α : Type} {cause : SyntaxCause}, cause ≠ .badAssignmentTarget →
    ∀ credit saved, P α credit saved (fail cause)
  reportNext : ∀ {cause : SyntaxCause}, cause ≠ .badAssignmentTarget →
    ∀ credit, P Unit (credit + 1) credit (reportNext cause)
  onNext : ∀ {α : Type} {credit saved : Nat} {choose : TokenKind → Option (Token → Parser α)}
    {otherwise : Parser α}, (∀ kind p, choose kind = some p → ∀ t, P α (credit + 1) saved (p t)) →
    P α credit saved otherwise → P α credit saved (onNext choose otherwise)
  bind : ∀ {α β : Type} {credit middle saved : Nat} {p : Parser α} {f : α → Parser β},
    P α credit middle p → 0 < middle → (∀ a, P β middle saved (f a)) → P β credit saved (p >>= f)
  relax : ∀ {α : Type} {credit saved credit' saved' : Nat} {p : Parser α}, P α credit saved p →
    credit ≤ credit' → saved' + credit ≤ saved + credit' → P α credit' saved' p
  /-- What is the same on short rows as some parser with the property, however long they may be, has
  the property. -/
  limit : ∀ {α : Type} {credit saved : Nat} {p : Parser α},
    (∀ n, ∃ q, P α credit saved q ∧ ∀ setting tokens, tokens.length ≤ n →
      q.run setting tokens = p.run setting tokens) → P α credit saved p

namespace Parser.Accounted

variable {P : (α : Type) → (credit saved : Nat) → Parser α → Prop} (h : Accounted P)
include h

theorem lose {credit credit' saved : Nat} {p : Parser α} (hp : P α credit saved p)
    (hle : credit ≤ credit') : P α credit' saved p :=
  h.relax hp hle (Nat.add_le_add_left hle saved)

theorem expect (kind : TokenKind) {cause : SyntaxCause} (hcause : cause ≠ .badAssignmentTarget)
    {credit saved : Nat} (hle : saved ≤ credit + 1) :
    P Token credit saved (expect kind cause) := by
  refine h.onNext (fun k p hp t => ?_) (h.fail hcause _ _)
  split at hp
  · cases hp
    exact h.pure t hle
  · contradiction

/-- A round of a loop has to leave what the loop began with, but for the token that the round began
with. -/
theorem foldWhile {accepts : TokenKind → Bool} {step : β → Token → Parser β} {credit : Nat}
    (hcredit : 0 < credit) (hstep : ∀ value t, P β (credit + 1) credit (step value t)) (init : β) :
    P β credit credit (foldWhile accepts step init) := by
  have hrounds : ∀ rounds value, P β credit credit (foldUpTo accepts step rounds value) := by
    intro rounds
    induction rounds with
    | zero => exact fun value => h.pure value (Nat.le_refl credit)
    | succ rounds ih =>
      intro value
      refine h.onNext (fun kind p hp t => ?_) (h.pure value (Nat.le_refl credit))
      split at hp
      · cases hp
        exact h.bind (hstep value t) hcredit ih
      · contradiction
  exact h.limit fun n => ⟨_, hrounds n init, fun setting _ htokens =>
    run_foldUpTo accepts step init setting htokens⟩

end Parser.Accounted

/-! ## Expressions -/

namespace Expr

open ScriptSyntax.Parser

variable {P : (α : Type) → (credit saved : Nat) → Parser α → Prop} {deeper : Deeper}

/-- What follows what stands on the left of an equals sign, if there is one. -/
def restOfExpression (left : Expr) (inside : Parser Expr) : Parser Expr :=
  onNext
    (fun
      | .equal => some fun equals => do assign left equals (← inside)
      | _ => none)
    (return left)

theorem expression_eq (deeper : Deeper) :
    expression deeper =
      operation (prefixed deeper) >>= fun left => restOfExpression left deeper.inside := rfl

theorem run_restOfExpression_of_eq {t : Token} (h : t.kind = .equal) (left : Expr)
    (inside : Parser Expr) (setting : Setting) (rest : List Token) :
    (restOfExpression left inside).run setting (t :: rest) =
      (inside.run setting rest).andThen fun value => (assign left t value).run setting := by
  unfold restOfExpression
  rw [run_onNext_of_eq_some (by rw [h]), run_bind]

theorem run_restOfExpression_of_ne {t : Token} (h : t.kind ≠ .equal) (left : Expr)
    (inside : Parser Expr) (setting : Setting) (rest : List Token) :
    (restOfExpression left inside).run setting (t :: rest) = ⟨.ok left, [], t :: rest⟩ := by
  refine run_onNext_of_eq_none ?_ setting rest
  split
  · contradiction
  · rfl

/-- An error at an equals sign is told of late, so there is a rule for all that follows the sign. -/
structure Accounted (P : (α : Type) → (credit saved : Nat) → Parser α → Prop) : Prop
    extends Parser.Accounted P where
  restOfExpression : ∀ {inside : Parser Expr}, P Expr 0 1 inside →
    ∀ left, P Expr 1 1 (restOfExpression left inside)

structure Deeper.IsAccounted (deeper : Deeper)
    (P : (α : Type) → (credit saved : Nat) → Parser α → Prop) : Prop where
  operand : P Expr 0 1 deeper.operand
  inside : P Expr 0 1 deeper.inside

section accounted

variable (h : Accounted P)
include h

theorem accounted_chain (precedence : Precedence) {operand : Parser Expr}
    (hoperand : P Expr 0 1 operand) : P Expr 0 1 (precedence.chain operand) :=
  h.bind hoperand Nat.one_pos fun first => h.foldWhile Nat.one_pos (fun _ _ =>
    h.bind (h.lose hoperand (Nat.zero_le 2)) Nat.one_pos fun _ => h.pure _ (Nat.le_refl 1)) first

theorem accounted_operation {operand : Parser Expr} (hoperand : P Expr 0 1 operand) :
    P Expr 0 1 (operation operand) := by
  unfold operation
  induction Precedence.tightestFirst generalizing operand with
  | nil => exact hoperand
  | cons precedence others ih => exact ih (accounted_chain h precedence hoperand)

theorem accounted_primary (hdeeper : deeper.IsAccounted P) : P Expr 0 1 (primary deeper) := by
  have hgroup : P Expr 1 1 (group deeper) :=
    h.bind (h.lose hdeeper.inside (Nat.zero_le 1)) Nat.one_pos fun _ =>
      h.bind (h.expect _ (by decide) (Nat.le_succ 1)) Nat.one_pos fun _ => h.pure _ (Nat.le_refl 1)
  refine h.onNext (fun kind p hp t => ?_) (h.fail (by decide) _ _)
  split at hp
  case h_7 =>
    cases hp
    exact hgroup
  case h_8 => contradiction
  all_goals
    cases hp
    exact h.pure _ (Nat.le_refl 1)

/-- The one argument of a call that may be told of is paid for by the token in front of it. -/
theorem accounted_argument (hdeeper : deeper.IsAccounted P) (earlier : Array Expr) :
    P (Array Expr) 2 1 (argument deeper earlier) := by
  have hargument : P (Array Expr) 1 1 (deeper.inside >>= fun e => pure (earlier.push e)) :=
    h.bind (h.lose hdeeper.inside (Nat.zero_le 1)) Nat.one_pos fun _ => h.pure _ (Nat.le_refl 1)
  unfold argument
  split
  · exact h.bind (h.reportNext (by decide) 1) Nat.one_pos fun _ => hargument
  · exact h.lose hargument (Nat.le_succ 1)

theorem accounted_restOfCall (hdeeper : deeper.IsAccounted P) (callee : Expr) :
    P Expr 2 1 (restOfCall deeper callee) := by
  have hargument := accounted_argument h hdeeper
  have harguments : P (Array Expr) 2 1 (arguments deeper) := by
    refine h.bind (h.nextIs _ 2) Nat.two_pos fun next => ?_
    split
    · exact h.pure _ (Nat.le_succ 1)
    · exact h.bind (hargument _) Nat.one_pos fun first =>
        h.foldWhile Nat.one_pos (fun es _ => hargument es) first
  exact h.bind harguments Nat.one_pos fun _ =>
    h.bind (h.expect _ (by decide) (Nat.le_succ 1)) Nat.one_pos fun _ => h.pure _ (Nat.le_refl 1)

theorem accounted_prefixed (hdeeper : deeper.IsAccounted P) : P Expr 0 1 (prefixed deeper) := by
  have happlication : P Expr 0 1 (application deeper) :=
    h.bind (accounted_primary h hdeeper) Nat.one_pos fun first =>
      h.foldWhile Nat.one_pos (fun callee _ => accounted_restOfCall h hdeeper callee) first
  refine h.onNext (fun kind p hp t => ?_) happlication
  split at hp
  case h_3 => contradiction
  all_goals
    cases hp
    exact h.bind (h.lose hdeeper.operand (Nat.zero_le 1)) Nat.one_pos fun _ =>
      h.pure _ (Nat.le_refl 1)

theorem accounted_expression (hdeeper : deeper.IsAccounted P) :
    P Expr 0 1 (expression deeper) := by
  rw [expression_eq]
  exact h.bind (accounted_operation h (accounted_prefixed h hdeeper)) Nat.one_pos
    (h.restOfExpression hdeeper.inside)

theorem accounted_ofRoom (room : Nat) : (Deeper.ofRoom room).IsAccounted P := by
  induction room with
  | zero => exact ⟨h.fail (by decide) _ _, h.fail (by decide) _ _⟩
  | succ room ih => exact ⟨accounted_prefixed h ih, accounted_expression h ih⟩

theorem accounted_of_room (room : Nat) : P Expr 0 1 (parser room) :=
  accounted_expression h (accounted_ofRoom h room)

end accounted

end Expr

/-! ## Statements -/

namespace Stmt

open ScriptSyntax.Parser

/-- A relation between a parser and the one where errors that drop a declaration are marked. What
tells of no such error is as good as any with the property for expressions. -/
structure Accounted (mark : SyntaxError → SyntaxError)
    (P : (α : Type) → (credit saved : Nat) → Parser α → Prop)
    (R : (α : Type) → (credit saved : Nat) → Parser α → Parser α → Prop) : Prop where
  expr : Expr.Accounted P
  semicolon : ∀ {α : Type} (a : α), P α 1 0 (semicolon >>= fun _ => pure a)
  plain : ∀ {α : Type} {credit saved : Nat} {p : Parser α}, P α credit saved p →
    R α credit saved p p
  onNext : ∀ {α : Type} {credit saved : Nat}
    {choose choose' : TokenKind → Option (Token → Parser α)} {otherwise otherwise' : Parser α},
    (∀ kind, Option.Rel (fun p p' => ∀ t, R α (credit + 1) saved (p t) (p' t)) (choose kind)
      (choose' kind)) → R α credit saved otherwise otherwise' →
    R α credit saved (onNext choose otherwise) (onNext choose' otherwise')
  bind : ∀ {α β : Type} {credit middle saved : Nat} {p p' : Parser α} {f f' : α → Parser β},
    R α credit middle p p' → 0 < middle → (∀ a, R β middle saved (f a) (f' a)) →
    R β credit saved (p >>= f) (p' >>= f')
  relax : ∀ {α : Type} {credit saved credit' saved' : Nat} {p p' : Parser α},
    R α credit saved p p' → credit ≤ credit' → saved' + credit ≤ saved + credit' →
    R α credit' saved' p p'
  declarations : ∀ {p p' : Parser Stmt}, p.resume.Advances → p'.resume.Advances →
    R Stmt 0 0 p p' → ∀ stops,
    R (List Stmt) 0 0 (collectUntil stops p.resume) (collectUntil stops (p'.resumeMarking mark))

structure Deeper.Accounted (deeper deeper' : Deeper)
    (R : (α : Type) → (credit saved : Nat) → Parser α → Parser α → Prop) : Prop where
  conditional : R Stmt 1 0 deeper.conditional deeper'.conditional
  block : R Stmt 1 0 deeper.block deeper'.block

variable {mark : SyntaxError → SyntaxError}
  {P : (α : Type) → (credit saved : Nat) → Parser α → Prop}
  {R : (α : Type) → (credit saved : Nat) → Parser α → Parser α → Prop}
  {expression : Parser Expr} {deeper deeper' : Deeper} {statement statement' : Parser Stmt}

section accounted

variable (h : Accounted mark P R)
include h

theorem accounted_statement (hexpression : P Expr 0 1 expression)
    (hdeeper : deeper.Accounted deeper' R) :
    R Stmt 0 0 (Stmt.statement expression deeper) (Stmt.statement expression deeper') := by
  have hprint : P Stmt 1 0 (restOfPrint expression) :=
    h.expr.bind (h.expr.lose hexpression (Nat.zero_le 1)) Nat.one_pos fun _ =>
      h.expr.bind (h.expr.expect _ (by decide) (Nat.le_succ 1)) Nat.one_pos fun _ =>
        h.expr.pure _ (Nat.zero_le 1)
  have hbare : P Stmt 0 0 (bareExpression expression) :=
    h.expr.bind hexpression Nat.one_pos fun value => h.semicolon (Stmt.expression value)
  refine h.onNext (fun kind => ?_) (h.plain hbare)
  split
  case h_1 => exact .some fun _ => hdeeper.conditional
  case h_2 => exact .some fun _ => h.plain hprint
  case h_3 => exact .some fun _ => hdeeper.block
  case h_4 => exact .none

theorem accounted_variableOrStatement (hexpression : P Expr 0 1 expression)
    (hstatement : R Stmt 0 0 statement statement') :
    R Stmt 0 0 (variableOrStatement expression statement)
      (variableOrStatement expression statement') := by
  have hvariable : P Stmt 1 0 (restOfVariable expression) := by
    refine h.expr.bind (h.expr.expect _ (by decide) (Nat.le_succ 1)) Nat.one_pos fun name =>
      h.expr.bind ?_ Nat.one_pos fun initializer =>
        h.expr.bind (h.expr.expect _ (by decide) (Nat.le_succ 1)) Nat.one_pos fun _ =>
          h.expr.pure _ (Nat.zero_le 1)
    refine h.expr.onNext (fun kind p hp t => ?_) (h.expr.pure none (Nat.le_refl 1))
    split at hp
    · cases hp
      exact h.expr.bind (h.expr.lose hexpression (Nat.zero_le 2)) Nat.one_pos fun _ =>
        h.expr.pure _ (Nat.le_refl 1)
    · contradiction
  refine h.onNext (fun kind => ?_) hstatement
  split
  · exact .some fun _ => h.plain hvariable
  · exact .none

theorem accounted_restOfConditional (hexpression : P Expr 0 1 expression)
    (hstatement : R Stmt 0 0 statement statement') :
    R Stmt 1 0 (restOfConditional expression statement)
      (restOfConditional expression statement') := by
  have hexpect {kind : TokenKind} {cause : SyntaxCause} (hcause : cause ≠ .badAssignmentTarget) :
      R Token 1 1 (expect kind cause) (expect kind cause) :=
    h.plain (h.expr.expect kind hcause (Nat.le_succ 1))
  refine h.bind (hexpect (by decide)) Nat.one_pos fun _ =>
    h.bind (h.plain (h.expr.lose hexpression (Nat.zero_le 1))) Nat.one_pos fun condition =>
      h.bind (hexpect (by decide)) Nat.one_pos fun _ =>
        h.bind (h.relax hstatement (Nat.zero_le 1) (Nat.le_refl 1)) Nat.one_pos fun branch =>
          h.onNext (fun kind => ?_) (h.plain (h.expr.pure _ (Nat.zero_le 1)))
  split
  · exact .some fun _ => h.bind (h.relax hstatement (Nat.zero_le 2) (Nat.le_refl 2)) Nat.two_pos
      fun _ => h.plain (h.expr.pure _ (Nat.zero_le 2))
  · exact .none

theorem accounted_restOfBlock (hstatement : R Stmt 0 0 statement statement')
    (hadvances : statement.resume.Advances) (hadvances' : statement'.resume.Advances) :
    R Stmt 1 0 (restOfBlock statement.resume) (restOfBlock (statement'.resumeMarking mark)) := by
  -- The one on credit is the opening brace. It pays for the closing one, should that be missing.
  have hdeclarations := h.declarations hadvances hadvances' hstatement (· = .rightBrace)
  exact h.bind (h.relax hdeclarations (Nat.zero_le 1) (Nat.le_refl 1)) Nat.one_pos fun _ =>
    h.plain (h.expr.bind (h.expr.expect _ (by decide) (Nat.le_succ 1)) Nat.one_pos fun _ =>
      h.expr.pure _ (Nat.zero_le 1))

theorem accounted_ofRoom (room : Nat) : (Deeper.ofRoom room).Accounted (.marking mark room) R := by
  induction room with
  | zero =>
    exact ⟨h.plain (h.expr.fail (by decide) _ _), h.plain (h.expr.fail (by decide) _ _)⟩
  | succ room ih =>
    have hexpression := Expr.accounted_of_room h.expr room
    have hstatement := accounted_statement h hexpression ih
    have hadvances := advances_declaration (Expr.makes_of_room room)
    exact ⟨accounted_restOfConditional h hexpression hstatement,
      accounted_restOfBlock h (accounted_variableOrStatement h hexpression hstatement)
        (hadvances (.ofRoom room)) (hadvances (.marking mark room))⟩

theorem accounted_declared_of_room (room : Nat) :
    R Stmt 0 0
      (variableOrStatement (Expr.parser room)
        (Stmt.statement (Expr.parser room) (.ofRoom room)))
      (variableOrStatement (Expr.parser room)
        (Stmt.statement (Expr.parser room) (.marking mark room))) :=
  have hexpression := Expr.accounted_of_room h.expr room
  accounted_variableOrStatement h hexpression
    (accounted_statement h hexpression (accounted_ofRoom h room))

theorem accounted_of_room (room : Nat) (stops : TokenKind → Bool) :
    R (List Stmt) 0 0 (collectUntil stops (parser room)) (collectUntil stops (marking mark room)) :=
  have hadvances := advances_declaration (Expr.makes_of_room room)
  h.declarations (hadvances (.ofRoom room)) (hadvances (.marking mark room))
    (accounted_declared_of_room h room) stops

end accounted

theorem advances_marking (mark : SyntaxError → SyntaxError) (room : Nat) :
    (marking mark room).Advances :=
  (advances_declaration (Expr.makes_of_room room) (.marking mark room)).resumeMarking

end Stmt

end ScriptSyntax
