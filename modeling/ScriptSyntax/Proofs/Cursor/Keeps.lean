import ScriptSyntax.Proofs.Cursor.Session
/-! # What a cursor keeps on its way

Whatever is read, and however often, the cursor stays in its row and does not move back, and every walk
that the grammar is made of comes back to the depth where it started.
-/

namespace ScriptSyntax

/-! ## The walks of the grammar -/

namespace Walk

variable {α : Type} {walk : Walk α} {trace : Trace} {input : Input} {ahead : List Token} {room : Nat}

/-- The walks that the grammar is made of. -/
inductive Part : {α : Type} → Walk α → Prop where
  | takeIf (accepts : TokenKind → Bool) : Part (takeIf accepts)
  | expect (kind : TokenKind) (cause : SyntaxCause) : Part (expect kind cause)
  | synchronize : Part synchronize
  | finishStatement : Part finishStatement
  | semicolon : Part semicolon
  | construct {α : Type} (c : Construct α) : Part (grammar c)
  | nested {α : Type} (c : Construct α) : Part (nested (grammar c))

theorem exists_follows (c : Construct α) :
    ∃ p : Nat → Parser α, ∀ room limit, (grammar c).Follows (p room) room limit := by
  have hinside (room : Nat) := (follows_ofRoom room).1
  have hprefixed (room limit : Nat) :
      (grammar .prefixed).Follows (Expr.prefixed (.ofRoom room)) room limit :=
    follows_prefixed (hinside room) (follows_ofRoom room).2
  have hadvances := Stmt.advances_of_room
  cases c with
  | expression => exact ⟨_, expression_follows⟩
  | operation precedences =>
    exact ⟨_, fun room => follows_operation (hprefixed room) precedences⟩
  | restOfOperation precedence tighter left =>
    exact ⟨_, fun room _ =>
      follows_restOfOperation (follows_operation (hprefixed room) tighter) left⟩
  | prefixed => exact ⟨_, hprefixed⟩
  | application => exact ⟨_, fun room _ => follows_application (hinside room)⟩
  | restOfApplication callee =>
    exact ⟨_, fun room _ => follows_restOfApplication (hinside room) callee⟩
  | restOfCall callee => exact ⟨_, fun room _ => follows_restOfCall (hinside room) callee⟩
  | arguments => exact ⟨_, fun room _ => follows_arguments (hinside room)⟩
  | moreArguments earlier => exact ⟨_, fun room _ => follows_moreArguments (hinside room) earlier⟩
  | primary => exact ⟨_, fun room _ => follows_primary (hinside room)⟩
  | initializer => exact ⟨_, fun _ _ => follows_initializer⟩
  | restOfVariable => exact ⟨_, fun _ _ => follows_restOfVariable⟩
  | restOfPrint => exact ⟨_, fun _ _ => follows_restOfPrint⟩
  | bareExpression => exact ⟨_, fun _ _ => follows_bareExpression⟩
  | statement => exact ⟨_, statement_follows⟩
  | restOfConditional =>
    exact ⟨_, fun room => follows_restOfConditional (statement_follows room)⟩
  | restOfBlock =>
    exact ⟨_, fun room => follows_restOfBlock (hadvances room) (declaration_follows room)⟩
  | declarations stops earlier =>
    exact ⟨_, fun room _ =>
      follows_declarations (hadvances room) (declaration_follows room) stops earlier⟩
  | declaration => exact ⟨_, declaration_follows⟩

theorem takeIf_ends (hat : trace.At input ahead room) (accepts : TokenKind → Bool) :
    ∃ outcome, (takeIf accepts).EndsAs trace input outcome := by
  by_cases hnext : ∀ t ∈ ahead.head?, accepts t.kind = false
  · exact ⟨_, endsAs_of_run hat (run_takeIf_of_not hat hnext)⟩
  · cases ahead with
    | nil => simp at hnext
    | cons t ahead => exact ⟨_, takeIf_endsAs hat (by simpa using hnext)⟩

theorem Follows.ends {p : Parser α} (h : walk.Follows p room ahead.length)
    (hat : trace.At input ahead room) : ∃ outcome, walk.EndsAs trace input outcome :=
  ⟨_, h hat (Nat.le_refl _)⟩

/-- With any tokens ahead and any levels counted, a walk of the grammar ends, and has changed no more
than its place and the errors. -/
theorem Part.ends (h : walk.Part) (hat : trace.At input ahead room) :
    ∃ outcome, walk.EndsAs trace input outcome := by
  cases h with
  | takeIf accepts => exact takeIf_ends hat accepts
  | expect kind cause => exact (follows_expect kind cause).ends hat
  | synchronize => exact ⟨_, synchronize_endsAs hat⟩
  | finishStatement => exact follows_finishStatement.ends hat
  | semicolon => exact follows_semicolon.ends hat
  | construct c =>
    obtain ⟨p, hp⟩ := exists_follows c
    exact (hp room _).ends hat
  | nested c =>
    obtain ⟨p, hp⟩ := exists_follows c
    cases room with
    | zero => exact (follows_nested_of_no_room (grammar c)).ends hat
    | succ room => exact (hp room _).nested.ends hat

end Walk

/-! ## Every moment -/

open TokenStream

namespace Trace

variable {trace moment : Trace} {input : Input}

/-- What is true at every moment of a cursor in a row. -/
structure Keeps (moment : Trace) (row : List Token) : Prop where
  tokens_eq : moment.now.tokens = row
  position_le : moment.now.position ≤ row.findIdx (·.kind == .endOfInput)
  inBounds : moment.now.position < row.length
  depth_le : moment.now.depth ≤ maxNesting
  /-- Every walk that starts here ends, with a value or an error, and then so many levels are counted
  as now. -/
  returns : ∀ ⦃α : Type⦄ (walk : Walk α), walk.Part →
    ∃ result after, walk.run moment = some (result, after) ∧ after.now.depth = moment.now.depth

theorem Sound.of_moment (h : trace.Sound input)
    (hmoment : moment.now :: moment.past <:+ trace.now :: trace.past) : moment.Sound input :=
  ⟨fun cursor hmem => h.each cursor (hmoment.subset hmem), h.forward.sublist hmoment.sublist⟩

theorem Sound.exists_at (h : moment.Sound input) : ∃ ahead room, moment.At input ahead room := by
  have hnow := h.each _ List.mem_cons_self
  have hposition := hnow.position_le
  have hdepth := hnow.depth_le
  refine ⟨input.row.drop moment.now.position, maxNesting - moment.now.depth, h,
    List.drop_suffix _ _, ?_, by omega⟩
  unfold Input.placeOf
  rw [List.length_drop]
  omega

theorem Sound.keeps (h : moment.Sound input) : moment.Keeps input.tokens := by
  have hnow := h.each _ List.mem_cons_self
  obtain ⟨ahead, room, hat⟩ := h.exists_at
  refine ⟨hnow.tokens_eq, ?_, ?_, hnow.depth_le, fun α walk hpart => ?_⟩
  · rw [input.findIdx_tokens]
    exact hnow.position_le
  · have hlength : input.tokens.length = input.row.length + (input.behind.length + 1) :=
      List.length_append
    have := hnow.position_le
    omega
  · obtain ⟨outcome, after, hrun, -, hafter⟩ := hpart.ends hat
    exact ⟨_, after, hrun, by rw [hafter]⟩

end Trace

/-- Whatever the tokens, a cursor goes along a row that starts with them and ends the input, and its
readings, in any order, give what those of streams give. Behind them no error is left in the buffer and
no level is counted. On the way the cursor never moves back. At each moment the row is the same, the
cursor is in it and not past the first token that ends the input, no more levels are counted than are
allowed, and what the grammar starts from there comes back to as many. -/
theorem session_keeps (tokens : List Token) (options : Options) (entries : List Entry) :
    (∃ eof, (closed tokens).getLast? = some eof ∧ eof.kind = .endOfInput) ∧
      tokens <+: closed tokens ∧
      ∃ trace, (Walk.session entries).run (.start tokens options) =
          some (.ok (answers options (ofTokens tokens) entries), trace) ∧
        trace.now.errors = [] ∧ trace.now.depth = 0 ∧
        trace.now.position = position tokens (after options (ofTokens tokens) entries) ∧
        ((trace.now :: trace.past).Pairwise fun later earlier => earlier.position ≤ later.position) ∧
        ∀ moment : Trace, moment.now :: moment.past <:+ trace.now :: trace.past →
          moment.Keeps (closed tokens) := by
  obtain ⟨input, hinput, hstream⟩ := exists_input tokens
  obtain ⟨trace, hrun, hbetween⟩ :=
    Walk.run_session (Trace.between_start hinput hstream options) entries
  have hsound := hbetween.here.sound
  refine ⟨getLast?_closed tokens, prefix_closed tokens, trace, hrun, hbetween.errors_eq,
    hbetween.depth_eq, ?_, hsound.forward, fun moment hmoment => ?_⟩
  · rw [hbetween.here.position_eq, position, hstream]
    rfl
  · rw [← hinput]
    exact (hsound.of_moment hmoment).keeps

end ScriptSyntax
