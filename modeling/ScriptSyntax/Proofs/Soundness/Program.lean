import ScriptSyntax.Proofs.Session
import ScriptSyntax.Proofs.Soundness.Stmt
/-! # What is read from a stream

Whatever the tokens, what is read from them has the shape that the grammar gives and keeps tokens in
the order in which they stand. What is read without an error is written by all tokens that were taken.
-/

namespace ScriptSyntax.TokenStream

open ScriptSyntax.Parser

variable {stream : TokenStream} {options : Options}

theorem readProgram_madeOf (stream : TokenStream) (options : Options) :
    Stmt.AllMadeOf (stream.readProgram options).1.value (maxNesting + 1) stream.tokens
      (stream.readProgram options).1.errors :=
  Stmt.collectUntil_allMadeOf (Stmt.finds_of_room maxNesting) (Stmt.advances_of_room maxNesting)
    (takes_to_end_iff.2 (run_program stream options))

theorem readExpression_madeOf {e : Expr} (h : (stream.readExpression options).1.value = some e) :
    ∃ read, stream.tokens = read ++ (stream.readExpression options).2.tokens ∧
      e.MadeOf 0 (maxNesting + 1) read (stream.readExpression options).1.errors := by
  obtain ⟨read, hread, htakes⟩ := takes_of_read h
  exact ⟨read, hread, Expr.makes_of_room maxNesting htakes⟩

/-- A name, and a program of a difference and a printed value behind it. -/
def nameAndProgram : List Token :=
  Token.ofKinds [.identifier, .identifier, .minus, .number, .semicolon, .printKeyword, .nilKeyword,
    .semicolon, .endOfInput]

/-- Wherever earlier readings ended: a program that is read without an error is derived by the
grammar and written by the tokens up to the end of the input, and an expression that is read without
an error is derived and written by the tokens that were taken for it. -/
theorem written_of_no_errors (tokens : List Token) (options : Options) (entries : List Entry) :
    let stream := (ofTokens tokens).after options entries
    let start := position tokens stream
    let program := (stream.readProgram options).1
    let expression := (stream.readExpression options).1
    let stop := position tokens (stream.readExpression options).2
    (program.errors = [] →
      (∀ s ∈ program.value, s.Derivable) ∧
        Stmt.WritesAll program.value
          ((tokens.drop start).takeWhile (·.kind != .endOfInput))) ∧
      ∀ e, expression.value = some e → expression.errors = [] →
        e.Derivable ∧ e.Writes ((tokens.take stop).drop start) := by
  intro stream start program expression stop
  have hsuffix : stream.tokens <:+ (ofTokens tokens).tokens := after_suffix entries
  constructor
  · intro herrors
    have hmade := readProgram_madeOf stream options
    rw [takeWhile_drop_position hsuffix]
    exact ⟨hmade.derivable, hmade.write herrors⟩
  · intro e he herrors
    obtain ⟨read, hread, hmade⟩ := readExpression_madeOf he
    rw [drop_take_position hsuffix hread]
    exact ⟨hmade.derivable, hmade.writes herrors⟩

theorem written_behind_name :
    let stream := (ofTokens nameAndProgram).after .strict [.expression]
    ((stream.readProgram .strict).1.errors = [] ∧
      Stmt.WritesAll (stream.readProgram .strict).1.value ((nameAndProgram.take 8).drop 1)) ∧
      (stream.readExpression .strict).1.errors = [] ∧
        ∃ e, (stream.readExpression .strict).1.value = some e ∧ e.Derivable ∧
          e.Writes ((nameAndProgram.take 4).drop 1) :=
  have h := written_of_no_errors nameAndProgram .strict [.expression]
  ⟨⟨rfl, (h.1 rfl).2⟩, rfl, _, rfl, h.2 _ rfl rfl⟩

/-- Wherever earlier readings ended, and whatever is broken: what is read keeps tokens between the
place where it starts and the place where it ends, in their order, has the shape that the grammar
gives, and nests no deeper than allowed. -/
theorem kept_in_order (tokens : List Token) (options : Options) (entries : List Entry) :
    let stream := (ofTokens tokens).after options entries
    let start := position tokens stream
    let program := (stream.readProgram options).1
    let programStop := position tokens (stream.readProgram options).2
    let expression := (stream.readExpression options).1
    let expressionStop := position tokens (stream.readExpression options).2
    ((Stmt.keptByAll program.value).Sublist ((tokens.take programStop).drop start) ∧
      ∀ s ∈ program.value, s.Derivable ∧ s.nesting ≤ maxNesting) ∧
      ∀ e, expression.value = some e →
        e.kept.Sublist ((tokens.take expressionStop).drop start) ∧
          e.Derivable ∧ e.nesting ≤ maxNesting := by
  intro stream start program programStop expression expressionStop
  have hsuffix : stream.tokens <:+ (ofTokens tokens).tokens := after_suffix entries
  constructor
  · have hmade := readProgram_madeOf stream options
    have hread : stream.tokens = stream.tokens ++ (stream.readProgram options).2.tokens := by
      rw [readProgram_tokens, List.append_nil]
    rw [drop_take_position hsuffix hread]
    exact ⟨hmade.kept_sublist, fun s hs =>
      ⟨hmade.derivable s hs, Nat.le_of_lt_succ (hmade.nesting_lt s hs)⟩⟩
  · intro e he
    obtain ⟨read, hread, hmade⟩ := readExpression_madeOf he
    rw [drop_take_position hsuffix hread]
    exact ⟨hmade.kept_sublist, hmade.derivable, Nat.le_of_lt_succ hmade.nesting_lt⟩

/-- A number that a value is assigned to. -/
def numberAssigned : List Token := Token.ofKinds [.number, .equal, .identifier, .semicolon]

theorem kept_of_number_assigned :
    ∃ e, ((ofTokens numberAssigned).readExpression .strict).1.value = some e ∧
      ((ofTokens numberAssigned).readExpression .strict).1.errors ≠ [] ∧
      e.kept.Sublist ((numberAssigned.take 3).drop 0) ∧ e.Derivable ∧ e.nesting ≤ maxNesting :=
  ⟨_, rfl, List.cons_ne_nil _ _, (kept_in_order numberAssigned .strict []).2 _ rfl⟩

end ScriptSyntax.TokenStream
