import ScriptSyntax.Proofs.Cursor.Expr
import ScriptSyntax.Proofs.Progress
/-! # Walks through statements follow their parsers -/

namespace ScriptSyntax.Walk

open ScriptSyntax.Parser

variable {room limit : Nat}

/-! ## Statements without others in them -/

theorem follows_finishStatement :
    finishStatement.Follows Parser.finishStatement room limit := by
  intro trace input ahead hat _
  have hrun : finishStatement.run trace =
      (if atStatementEnd ahead then pure () else synchronize : Walk Unit).run trace := by
    unfold finishStatement
    rw [run_bind_of_ok (run_atEnd hat), run_bind_of_ok (run_check hat _)]
    cases ahead <;> rfl
  refine EndsAs.of_run_eq ?_ hrun
  unfold Parser.finishStatement
  dsimp only
  split
  · exact endsAs_of_run hat rfl
  · exact synchronize_endsAs hat

theorem follows_semicolon : semicolon.Follows Stmt.semicolon room limit := by
  intro trace input ahead hat hle
  by_cases hnext : ∀ t ∈ ahead.head?, t.kind ≠ .semicolon
  · have hexpect : (expect .semicolon .noSemicolonAfterValue).run trace = some (.error
        ⟨(Setting.mk trace.now.options input.eof.location).site ahead, .noSemicolonAfterValue⟩,
        trace) := by
      unfold expect
      rw [run_bind_of_ok (run_takeIf_of_not hat (by simpa using hnext)),
        run_bind_of_ok (run_errorHere hat _ _)]
      rfl
    rw [Stmt.run_semicolon_of_ne hnext]
    unfold EndsAs semicolon
    rw [run_bind_of_ok (run_attempt hexpect), run_bind_of_ok (run_current trace)]
    cases trace.now.options.strictSemicolons with
    | true => exact endsAs_of_run hat rfl
    | false =>
      have hfinish (told : Trace) (htold : told.At input ahead room) :
          finishStatement.EndsAs told input
            ⟨.ok (), [], if atStatementEnd ahead then ahead else dropStatement ahead⟩ :=
        follows_finishStatement htold hle
      exact (record_endsAs hat _).bind (fun told hsound hnow =>
        hfinish told (hat.move hsound List.suffix_rfl hnow)) rfl
  · cases ahead with
    | nil => simp at hnext
    | cons t ahead =>
      have hkind : t.kind = .semicolon := by simpa using hnext
      rw [Stmt.run_semicolon_of_eq hkind]
      obtain ⟨trace', hrun, hsound, hnow⟩ := follows_expect .semicolon .noSemicolonAfterValue hat
        (Nat.le_refl _)
      rw [run_expect_cons, if_pos hkind] at hrun hnow
      refine ⟨trace', ?_, hsound, hnow⟩
      unfold semicolon
      rw [run_bind_of_ok (run_attempt hrun)]
      rfl

theorem follows_bareExpression :
    (grammar .bareExpression).Follows (Stmt.bareExpression (Expr.parser room)) room limit := by
  rw [grammar]
  exact (expression_follows room limit).bind fun _ => follows_semicolon.bind fun _ => follows_pure _

theorem follows_restOfPrint :
    (grammar .restOfPrint).Follows (Stmt.restOfPrint (Expr.parser room)) room limit := by
  rw [grammar]
  exact (expression_follows room limit).bind fun _ => (follows_expect _ _).bind fun _ => follows_pure _

theorem follows_initializer :
    (grammar .initializer).Follows (onNext (fun kind => if decide (kind = .equal) then
      some fun _ => Expr.parser room >>= fun e => pure (some e) else none) (pure none))
      room limit := by
  rw [grammar]
  apply follows_takeIf
  · exact fun _ _ less _ => (expression_follows room less).bind fun _ => follows_pure _
  · exact follows_pure none

theorem follows_restOfVariable :
    (grammar .restOfVariable).Follows (Stmt.restOfVariable (Expr.parser room)) room limit := by
  have hvariable : Stmt.restOfVariable (Expr.parser room) =
      Parser.expect .identifier .noVariableName >>= fun name =>
        onNext (fun kind => if decide (kind = .equal) then
          some fun _ => Expr.parser room >>= fun e => pure (some e) else none) (pure none) >>=
        fun value => Parser.expect .semicolon .noSemicolonAfterVariable >>= fun _ =>
          pure (.var name value) := by
    unfold Stmt.restOfVariable
    congr
    funext name
    congr
    funext kind
    cases kind <;> rfl
  rw [hvariable, grammar]
  exact (follows_expect _ _).bind fun _ => follows_initializer.bind fun _ =>
    (follows_expect _ _).bind fun _ => follows_pure _

/-! ## Statements with others in them -/

section deeper

variable {deeper : Stmt.Deeper}

theorem follows_statement
    (hconditional : ∀ limit,
      (nested (grammar .restOfConditional)).Follows deeper.conditional room limit)
    (hblock : ∀ limit,
      (nested (grammar .restOfBlock) >>= fun statements => pure (.block statements)).Follows
        deeper.block room limit) (limit : Nat) :
    (grammar .statement).Follows (Stmt.statement (Expr.parser room) deeper) room limit := by
  have hstatement : Stmt.statement (Expr.parser room) deeper =
      onNext (fun kind => if decide (kind = .ifKeyword) then some fun _ => deeper.conditional
        else none)
      (onNext (fun kind => if decide (kind = .printKeyword) then
        some fun _ => Stmt.restOfPrint (Expr.parser room) else none)
      (onNext (fun kind => if decide (kind = .leftBrace) then some fun _ => deeper.block else none)
      (Stmt.bareExpression (Expr.parser room)))) := by
    ext setting tokens
    rcases tokens with _ | ⟨⟨kind, _, _, _⟩, rest⟩
    · rfl
    · cases kind <;> rfl
  rw [hstatement, grammar]
  apply follows_takeIf
  · exact fun _ _ less _ => hconditional less
  apply follows_takeIf
  · exact fun _ _ less _ => follows_restOfPrint
  apply follows_takeIf
  · exact fun _ _ less _ => hblock less
  · exact follows_bareExpression

end deeper

theorem follows_declaration {p : Parser Stmt}
    (hstatement : ∀ limit, (grammar .statement).Follows p room limit) :
    (grammar .declaration).Follows (Stmt.declaration (Expr.parser room) p) room limit := by
  have hdeclaration : Stmt.variableOrStatement (Expr.parser room) p =
      onNext (fun kind => if decide (kind = .varKeyword) then
        some fun _ => Stmt.restOfVariable (Expr.parser room) else none) p := by
    unfold Stmt.variableOrStatement
    congr
    funext kind
    cases kind <;> rfl
  rw [Stmt.declaration, hdeclaration, grammar]
  exact (follows_takeIf (fun _ _ less _ => follows_restOfVariable) (hstatement limit)).recover

theorem follows_declarations {p : Parser (Option Stmt)} (hp : p.Advances)
    (hdeclaration : ∀ limit, (grammar .declaration).Follows p room limit) (stops : TokenKind → Bool)
    (earlier : List Stmt) :
    (grammar (.declarations stops earlier)).Follows
      (collectUntil stops p >>= fun more => pure (earlier ++ more)) room limit := by
  -- Each declaration takes a token, so there are fewer ahead for the next one.
  induction limit using Nat.strongRecOn generalizing earlier with
  | _ limit ih =>
  intro trace input ahead hat hle
  cases ahead with
  | nil =>
    rw [run_bind, run_collectUntil_nil]
    have hrun : (grammar (.declarations stops earlier)).run trace =
        some (.ok (earlier ++ []), trace) := by
      rw [grammar, run_bind_of_ok (run_atEnd hat), List.append_nil]
      rfl
    exact endsAs_of_run hat hrun
  | cons t ahead =>
    have hrun : (grammar (.declarations stops earlier)).run trace =
        (if stops t.kind then pure earlier
          else grammar .declaration >>= fun found =>
            grammar (.declarations stops (earlier ++ found.toList)) :
          Walk (List Stmt)).run trace := by
      rw [grammar, run_bind_of_ok (run_atEnd hat)]
      exact run_bind_of_ok (run_check hat stops)
    refine EndsAs.of_run_eq ?_ hrun
    rw [run_bind, run_collectUntil_cons stops p hp]
    split
    · simpa using endsAs_of_run hat (run_pure earlier trace)
    · rw [← run_bind]
      simp only [bind_assoc, pure_bind, ← List.append_assoc]
      exact (hdeclaration limit).bind_endsAs hp
        (fun found less hless => ih less (Nat.lt_of_lt_of_le hless hle) _) hat hle

/-! ## Room -/

theorem follows_restOfConditional {p : Parser Stmt}
    (hstatement : ∀ limit, (grammar .statement).Follows p room limit) (limit : Nat) :
    (grammar .restOfConditional).Follows (Stmt.restOfConditional (Expr.parser room) p) room limit := by
  have hconditional : Stmt.restOfConditional (Expr.parser room) p =
      Parser.expect .leftParen .noParenAfterIf >>= fun _ => Expr.parser room >>= fun condition =>
        Parser.expect .rightParen .noParenAfterCondition >>= fun _ => p >>= fun branch =>
          onNext (fun kind => if decide (kind = .elseKeyword) then
            some fun _ => p >>= fun alternative => pure (.ifElse condition branch alternative)
            else none)
          (pure (.ifThen condition branch)) := by
    unfold Stmt.restOfConditional
    congr
    funext _
    congr
    funext condition
    congr
    funext _
    congr
    funext branch
    congr
    funext kind
    cases kind <;> rfl
  rw [hconditional, grammar]
  refine (follows_expect _ _).bind fun _ => (expression_follows room limit).bind fun condition =>
    (follows_expect _ _).bind fun _ => (hstatement limit).bind fun branch => ?_
  apply follows_takeIf
  · exact fun _ _ less _ => (hstatement less).bind fun _ => follows_pure _
  · exact follows_pure _

theorem follows_restOfBlock {p : Parser (Option Stmt)} (hp : p.Advances)
    (hdeclaration : ∀ limit, (grammar .declaration).Follows p room limit) (limit : Nat) :
    (grammar .restOfBlock).Follows
      (collectUntil (· = .rightBrace) p >>= fun statements =>
        Parser.expect .rightBrace .noBraceAfterBlock >>= fun _ => pure statements) room limit := by
  have hdeclarations : (grammar (.declarations (· = .rightBrace) [])).Follows
      (collectUntil (· = .rightBrace) p) room limit := by
    simpa using follows_declarations hp hdeclaration (· = .rightBrace) []
  rw [grammar]
  exact hdeclarations.bind fun _ => (follows_expect _ _).bind fun _ => follows_pure _

theorem follows_block_of_no_room :
    (nested (grammar .restOfBlock) >>= fun statements => pure (.block statements) : Walk Stmt).Follows
      (fail .tooDeep) 0 limit := by
  have hfail : (fail .tooDeep : Parser Stmt) =
      fail .tooDeep >>= fun statements : List Stmt => pure (.block statements) := by
    ext setting tokens
    rfl
  rw [hfail]
  exact (follows_nested_of_no_room _).bind fun _ => follows_pure _

theorem statement_follows (room : Nat) : ∀ limit, (grammar .statement).Follows
    (Stmt.statement (Expr.parser room) (Stmt.Deeper.ofRoom room)) room limit := by
  induction room with
  | zero =>
    apply follows_statement
    · exact fun _ => follows_nested_of_no_room _
    · exact fun _ => follows_block_of_no_room
  | succ room ih =>
    have hdeclaration (limit : Nat) : (grammar .declaration).Follows (Stmt.parser room) room limit :=
      follows_declaration ih
    apply follows_statement
    · exact fun limit => (follows_restOfConditional ih limit).nested
    · intro limit
      have hblock : (Stmt.Deeper.ofRoom (room + 1)).block =
          (collectUntil (· = .rightBrace) (Stmt.parser room) >>= fun statements =>
            Parser.expect .rightBrace .noBraceAfterBlock >>= fun _ => pure statements) >>=
          fun statements => pure (.block statements) := by
        simp only [bind_assoc, pure_bind]
        rfl
      rw [hblock]
      exact (follows_restOfBlock (Stmt.advances_of_room room) hdeclaration limit).nested.bind
        fun _ => follows_pure _

theorem declaration_follows (room limit : Nat) :
    (grammar .declaration).Follows (Stmt.parser room) room limit :=
  follows_declaration (statement_follows room)

end ScriptSyntax.Walk
