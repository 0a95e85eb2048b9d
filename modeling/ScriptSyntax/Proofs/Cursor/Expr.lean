import ScriptSyntax.Proofs.Cursor.Follows
import ScriptSyntax.Proofs.Cursor.Grammar
import ScriptSyntax.Proofs.Parser.Compositional
/-! # Walks through expressions follow their parsers -/

namespace ScriptSyntax.Walk

open ScriptSyntax.Parser

variable {room limit : Nat} {deeper : Expr.Deeper}

theorem follows_check (kind : TokenKind) :
    (check (· = kind)).Follows (nextIs kind) room limit :=
  fun _ _ _ hat _ => endsAs_of_run hat (run_check hat _)

theorem follows_recordIfFull (earlier : Array Expr) :
    (recordIfFull earlier).Follows
      (if earlier.size = maxArguments then reportNext .tooManyArguments else pure ())
      room limit := by
  unfold recordIfFull
  split
  · exact follows_recordHere _
  · exact follows_pure ()

section deeper

variable (hinside : ∀ limit, (nested (grammar .expression)).Follows deeper.inside room limit)

include hinside

/-! ## Primary expressions and calls -/

theorem follows_primary : (grammar .primary).Follows (Expr.primary deeper) room limit := by
  have hprimary : Expr.primary deeper =
      onNext (fun kind => if Expr.startsLiteral kind then some fun value => pure (.literal value)
        else none)
      (onNext (fun kind => if decide (kind = .identifier) then some fun name => pure (.reference name)
        else none)
      (onNext (fun kind => if decide (kind = .leftParen) then some fun _ => Expr.group deeper
        else none)
      (fail .noExpression))) := by
    ext setting tokens
    rcases tokens with _ | ⟨⟨kind, _, _, _⟩, rest⟩
    · rfl
    · cases kind <;> rfl
  rw [hprimary, grammar]
  apply follows_takeIf
  · exact fun value _ less _ => follows_pure _
  apply follows_takeIf
  · exact fun name _ less _ => follows_pure _
  apply follows_takeIf
  · exact fun _ _ less _ => (hinside less).bind fun inner =>
      (follows_expect _ _).bind fun _ => follows_pure _
  · exact follows_throw _

theorem follows_moreArguments (earlier : Array Expr) :
    (grammar (.moreArguments earlier)).Follows
      (Expr.argument deeper earlier >>= foldWhile (· = .comma) fun earlier _ =>
        Expr.argument deeper earlier) room limit := by
  -- The comma in front of the next argument leaves fewer tokens for it.
  induction limit using Nat.strongRecOn generalizing earlier with
  | _ limit ih =>
  have hargument (more : Array Expr → Parser (Array Expr)) : Expr.argument deeper earlier >>= more =
      (if earlier.size = maxArguments then reportNext .tooManyArguments else pure ()) >>=
        fun _ => deeper.inside >>= fun e => more (earlier.push e) := by
    unfold Expr.argument
    split <;> simp
  rw [hargument, grammar]
  refine (follows_recordIfFull earlier).bind fun _ => (hinside limit).bind fun argument => ?_
  rw [foldWhile_eq]
  apply follows_takeIf
  · exact fun _ _ less hless => ih less hless (earlier.push argument)
  · exact follows_pure _

theorem follows_arguments : (grammar .arguments).Follows (Expr.arguments deeper) room limit := by
  rw [grammar]
  refine (follows_check .rightParen).bind fun next => ?_
  cases next with
  | true => exact follows_pure _
  | false => exact follows_moreArguments hinside #[]

theorem follows_restOfCall (callee : Expr) :
    (grammar (.restOfCall callee)).Follows (Expr.restOfCall deeper callee) room limit := by
  rw [grammar]
  exact (follows_arguments hinside).bind fun _ => (follows_expect _ _).bind fun _ => follows_pure _

theorem follows_restOfApplication (callee : Expr) :
    (grammar (.restOfApplication callee)).Follows
      (foldWhile (· = .leftParen) (fun callee _ => Expr.restOfCall deeper callee) callee)
      room limit := by
  induction limit using Nat.strongRecOn generalizing callee with
  | _ limit ih =>
  rw [grammar, foldWhile_eq]
  apply follows_takeIf
  · exact fun _ _ less hless => (follows_restOfCall hinside callee).bind (ih less hless)
  · exact follows_pure _

theorem follows_application :
    (grammar .application).Follows (Expr.application deeper) room limit := by
  rw [grammar]
  exact (follows_primary hinside).bind (follows_restOfApplication hinside)

/-! ## Operators -/

variable (hoperand : ∀ limit, (nested (grammar .prefixed)).Follows deeper.operand room limit)

include hoperand

theorem follows_prefixed : (grammar .prefixed).Follows (Expr.prefixed deeper) room limit := by
  have hprefixed : Expr.prefixed deeper =
      onNext (fun kind => if decide (kind = .bang) || decide (kind = .minus) then
        some fun operator => deeper.operand >>= fun operand => pure (.unary operator operand)
        else none)
      (Expr.application deeper) := by
    ext setting tokens
    rcases tokens with _ | ⟨⟨kind, _, _, _⟩, rest⟩
    · rfl
    · cases kind <;> rfl
  rw [hprefixed, grammar]
  apply follows_takeIf
  · exact fun operator _ less _ => (hoperand less).bind fun _ => follows_pure _
  · exact follows_application hinside

end deeper

theorem follows_restOfOperation {precedence : Expr.Precedence} {tighter : List Expr.Precedence}
    {operand : Parser Expr}
    (hoperand : ∀ limit, (grammar (.operation tighter)).Follows operand room limit) (left : Expr) :
    (grammar (.restOfOperation precedence tighter left)).Follows
      (foldWhile (fun kind => Expr.Precedence.ofKind? kind = some precedence)
        (fun left operator => operand >>= fun right => pure (precedence.combine left operator right))
        left) room limit := by
  induction limit using Nat.strongRecOn generalizing left with
  | _ limit ih =>
  rw [grammar, foldWhile_eq]
  simp only [bind_assoc, pure_bind]
  apply follows_takeIf
  · exact fun operator _ less hless => (hoperand less).bind fun right => ih less hless _
  · exact follows_pure _

theorem follows_operation {operand : Parser Expr}
    (hoperand : ∀ limit, (grammar .prefixed).Follows operand room limit)
    (precedences : List Expr.Precedence) :
    ∀ limit, (grammar (.operation precedences)).Follows
      (precedences.foldr (fun precedence operand => precedence.chain operand) operand) room limit := by
  induction precedences with
  | nil =>
    intro limit
    have hnil : grammar (.operation []) = grammar .prefixed := by rw [grammar, grammar]
    rw [hnil]
    exact hoperand limit
  | cons precedence tighter ih =>
    intro limit
    rw [grammar]
    exact (ih limit).bind (follows_restOfOperation ih)

theorem follows_expression
    (hinside : ∀ limit, (nested (grammar .expression)).Follows deeper.inside room limit)
    (hoperand : ∀ limit, (nested (grammar .prefixed)).Follows deeper.operand room limit) :
    (grammar .expression).Follows (Expr.expression deeper) room limit := by
  have hoperation : Expr.operation (Expr.prefixed deeper) =
      Expr.Precedence.tightestFirst.reverse.foldr (fun precedence operand => precedence.chain operand)
        (Expr.prefixed deeper) := by
    rw [List.foldr_reverse]
    rfl
  have hexpression : Expr.expression deeper = Expr.operation (Expr.prefixed deeper) >>= fun left =>
      onNext (fun kind => if decide (kind = .equal) then some fun equals =>
        deeper.inside >>= fun value => Expr.assign left equals value else none) (pure left) := by
    unfold Expr.expression
    congr
    funext left
    congr
    funext kind
    cases kind <;> rfl
  rw [hexpression, hoperation, grammar]
  refine (follows_operation (fun limit => follows_prefixed hinside hoperand) _ limit).bind
    fun left => ?_
  apply follows_takeIf
  · intro equals hequals less _
    have hkind : equals.kind ≠ .endOfInput := by
      rw [of_decide_eq_true hequals]
      decide
    refine (hinside less).bind fun value => ?_
    cases left with
    | reference target => exact follows_pure _
    | _ => exact (follows_record hkind _).bind fun _ => follows_pure _
  · exact follows_pure _

/-! ## Room -/

theorem follows_ofRoom (room : Nat) :
    (∀ limit, (nested (grammar .expression)).Follows (Expr.Deeper.ofRoom room).inside room limit) ∧
      ∀ limit,
        (nested (grammar .prefixed)).Follows (Expr.Deeper.ofRoom room).operand room limit := by
  induction room with
  | zero => exact ⟨fun _ => follows_nested_of_no_room _, fun _ => follows_nested_of_no_room _⟩
  | succ room ih =>
    exact ⟨fun _ => (follows_expression ih.1 ih.2).nested, fun _ =>
      (follows_prefixed ih.1 ih.2).nested⟩

theorem expression_follows (room limit : Nat) :
    (grammar .expression).Follows (Expr.parser room) room limit :=
  follows_expression (follows_ofRoom room).1 (follows_ofRoom room).2

end ScriptSyntax.Walk
