import ScriptSyntax.Proofs.Completeness.Stmt
import ScriptSyntax.Proofs.Session
/-! # What is written is read

The tokens that write a program or an expression are read from a stream as just that.
-/

namespace ScriptSyntax.TokenStream

open ScriptSyntax.Parser
open ScriptSyntax.Expr (tooManyAt holdOf?)

variable {stream : TokenStream} {ts rest : List Token} {e : Expr} {p : List Stmt}

theorem readExpression_of_takes (options : Options) {errors : List SyntaxError}
    (hstream : stream.tokens = ts ++ rest)
    (h : (Expr.parser maxNesting).Takes ⟨options, stream.inputEnd⟩ ts rest e errors) :
    (stream.readExpression options).1.value = some e ∧
      (stream.readExpression options).1.errors = errors ∧
      (stream.readExpression options).2.tokens = rest := by
  unfold Takes at h
  rw [← hstream] at h
  simp [readExpression, read, h]

theorem endsBefore_ofTokens {t : Token} (ht : holdOf? t.kind = none) (behind : List Token) :
    Expr.EndsBefore 0 (ofTokens (t :: behind)).tokens := by
  by_cases heof : t.kind = .endOfInput
  · rw [ofTokens_endOfInput heof]
    simp [Expr.EndsBefore]
  · have hnext : (ofTokens ([t] ++ behind)).tokens = [t] ++ _ :=
      ofTokens_append (by simpa using heof) behind
    rw [List.singleton_append] at hnext
    rw [hnext]
    exact Expr.endsBefore_of_holdOf?_eq_none ht 0

theorem takes_program {setting : Setting} (hderivable : ∀ s ∈ p, s.Derivable)
    (hnesting : Stmt.nestingOfAll p ≤ maxNesting) (hw : Stmt.WritesAll p ts) :
    program.Takes setting ts [] p ((Stmt.excessOfAll p ts).map tooManyAt) := by
  have hroom := Stmt.nestingOfAll_le_iff.1 hnesting
  have heach : Stmt.ReadsEach (Stmt.parser maxNesting) setting p := fun s hs =>
    ⟨hderivable s hs, fun _ _ hw hrest => (hderivable s hs).takes_of_room hw (hroom s hs) hrest⟩
  exact Stmt.takes_all (Stmt.advances_of_room maxNesting) heach hw (by simp) (by simp)

/-- What the grammar derives and nests no deeper than allowed is read from the tokens that write it.
The only errors tell of calls with too many arguments, one of each. -/
theorem read_of_written (options : Options) :
    (∀ (p : List Stmt) (ts : List Token) (eof : Token) (behind : List Token),
      (∀ s ∈ p, s.Derivable) → Stmt.nestingOfAll p ≤ maxNesting → Stmt.WritesAll p ts →
      eof.kind = .endOfInput →
      let program := ((ofTokens (ts ++ eof :: behind)).readProgram options).1
      program.value = p ∧ program.errors = (Stmt.excessOfAll p ts).map tooManyAt ∧
        (Stmt.excessOfAll p ts).Sublist ts ∧
        (Stmt.excessOfAll p ts).length = Stmt.longCallsOfAll p) ∧
    (∀ (e : Expr) (ts : List Token) (t : Token) (behind : List Token),
      e.Derivable → e.nesting ≤ maxNesting → e.Writes ts → holdOf? t.kind = none →
      let expression := ((ofTokens (ts ++ t :: behind)).readExpression options).1
      let stop := position (ts ++ t :: behind)
        ((ofTokens (ts ++ t :: behind)).readExpression options).2
      expression.value = some e ∧ expression.errors = (e.excess ts).map tooManyAt ∧
        (e.excess ts).Sublist ts ∧ (e.excess ts).length = e.longCalls ∧
        stop = ts.length) ∧
    SyntaxCause.tooManyArguments.message = "Can't have more than 255 arguments." := by
  refine ⟨?_, ?_, rfl⟩
  · intro p ts eof behind hderivable hnesting hw heof program
    have hstream : (ofTokens (ts ++ eof :: behind)).tokens = ts := by
      rw [ofTokens_append (hw.kind_ne_endOfInput fun s hs _ => (hderivable s hs).kind_ne_endOfInput),
        ofTokens_endOfInput heof, List.append_nil]
    have hprogram : program = ⟨p, (Stmt.excessOfAll p ts).map tooManyAt⟩ := by
      unfold program
      rw [readProgram_of_run]
      rw [hstream]
      exact takes_to_end_iff.1 (takes_program hderivable hnesting hw)
    rw [hprogram]
    exact ⟨rfl, rfl,
      hw.excess_sublist fun s hs => ⟨hderivable s hs, fun _ => (hderivable s hs).excess_sublist⟩,
      hw.length_excess fun s hs => ⟨hderivable s hs, fun _ => (hderivable s hs).length_excess⟩⟩
  · intro e ts t behind hderivable hnesting hw ht expression stop
    have hstream := ofTokens_append (hderivable.kind_ne_endOfInput hw) (t :: behind)
    have hends := endsBefore_ofTokens ht behind
    obtain ⟨hvalue, herrors, hleft⟩ := readExpression_of_takes options hstream
      (hderivable.takes_of_room hw hnesting hends)
    have hstop : stop = ts.length := by
      unfold stop position
      rw [hstream, hleft, List.length_append]
      omega
    exact ⟨hvalue, herrors, (e.excess_sublist_tail ts).trans (List.tail_sublist ts),
      hderivable.length_excess hw, hstop⟩

/-! ## A conditional -/

/-- The negation of a call. -/
def negatedCall : Expr :=
  .unary (.ofKind .minus)
    (.call (.reference (.ofKind .identifier)) [.literal (.ofKind .nilKeyword)] (.ofKind .rightParen))

def negatedCallTokens : List Token :=
  Token.ofKinds [.minus, .identifier, .leftParen, .nilKeyword, .rightParen]

theorem derivable_negatedCall : negatedCall.Derivable :=
  .unary (.inr rfl) (by decide) (.call rfl (by decide) (.reference rfl)
    (by simpa using Expr.Derivable.literal rfl))

theorem writes_negatedCall : negatedCall.Writes negatedCallTokens := by
  have hcall : (Expr.call (.reference (.ofKind .identifier)) [.literal (.ofKind .nilKeyword)]
      (.ofKind .rightParen)).Writes
        ([.ofKind .identifier] ++ .ofKind .leftParen :: [.ofKind .nilKeyword] ++
          [.ofKind .rightParen]) :=
    .call .reference rfl (.one .literal)
  exact .unary hcall

/-- A choice between printing a value and forgetting it. -/
def choice : Stmt :=
  .ifElse (.reference (.ofKind .identifier)) (.print negatedCall) (.expression negatedCall)

def choiceTokens : List Token :=
  Token.ofKinds [.ifKeyword, .leftParen, .identifier, .rightParen, .printKeyword] ++
    (negatedCallTokens ++ (Token.ofKinds [.semicolon, .elseKeyword] ++
      (negatedCallTokens ++ Token.ofKinds [.semicolon])))

theorem derivable_choice : choice.Derivable :=
  .ifElse (.reference rfl) (.print derivable_negatedCall) rfl rfl (.expression derivable_negatedCall)
    rfl

theorem write_choice : Stmt.WritesAll [choice] choiceTokens := by
  have hprint : (Stmt.print negatedCall).Writes
      (.ofKind .printKeyword :: negatedCallTokens ++ [.ofKind .semicolon]) :=
    .print rfl writes_negatedCall rfl
  have hlast : (Stmt.expression negatedCall).Writes (negatedCallTokens ++ [.ofKind .semicolon]) :=
    .expression writes_negatedCall rfl
  have hchoice : choice.Writes
      (.ofKind .ifKeyword :: .ofKind .leftParen :: [.ofKind .identifier] ++
        .ofKind .rightParen :: (.ofKind .printKeyword :: negatedCallTokens ++ [.ofKind .semicolon]) ++
        .ofKind .elseKeyword :: (negatedCallTokens ++ [.ofKind .semicolon])) :=
    .ifElse rfl rfl .reference rfl hprint rfl hlast
  have hall := Stmt.WritesAll.cons hchoice .nil
  exact hall

theorem read_of_written_choice :
    (∀ s ∈ [choice], s.Derivable) ∧ Stmt.WritesAll [choice] choiceTokens ∧
      ((ofTokens (choiceTokens ++ [.ofKind .endOfInput])).readProgram .strict).1.value = [choice] ∧
      ((ofTokens (negatedCallTokens ++ [.ofKind .identifier])).readExpression .strict).1.value =
        some negatedCall := by
  have hderivable : ∀ s ∈ [choice], s.Derivable := by simpa using derivable_choice
  have hprogram := (read_of_written .strict).1 [choice] choiceTokens (.ofKind .endOfInput) []
    hderivable (by decide) write_choice rfl
  have hexpression := (read_of_written .strict).2.1 negatedCall negatedCallTokens
    (.ofKind .identifier) [] derivable_negatedCall (by decide) writes_negatedCall rfl
  exact ⟨hderivable, write_choice, hprogram.1, hexpression.1⟩

end ScriptSyntax.TokenStream
