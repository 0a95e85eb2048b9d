import ScriptSyntax.Proofs.Parser.Rounds
import ScriptSyntax.Proofs.Session
/-! # Every reading ends

Whatever the tokens, a declaration moves on, but not past the end of the input. So all loops end,
and a program is read up to the first token that ends the input.
-/

namespace ScriptSyntax

open ScriptSyntax.Parser

/-- The loops that read a row of tokens end within one round for each token and another one, with what
the parsers make of the row. -/
structure LoopsEnd (setting : Setting) (row : List Token) : Prop where
  program : ∃ rounds ≤ row.length + 1,
    EndsAfter (collectUntil.round (fun _ => false) (Stmt.parser maxNesting) setting) rounds
      (row, [], []) (TokenStream.program.run setting row)
  block : ∀ room, ∃ rounds ≤ row.length + 1,
    EndsAfter (collectUntil.round (· = .rightBrace) (Stmt.parser room) setting) rounds
      (row, [], []) ((collectUntil (· = .rightBrace) (Stmt.parser room)).run setting row)
  operators : ∀ (precedence : Expr.Precedence) (operand : Parser Expr) (first : Expr),
    let accepts := fun kind => decide (Expr.Precedence.ofKind? kind = some precedence)
    let step := fun left operator => do return precedence.combine left operator (← operand)
    ∃ rounds ≤ row.length + 1, EndsAfter (foldWhile.round accepts step setting) rounds
      (row, first, []) ((foldWhile accepts step first).run setting row)
  calls : ∀ room (first : Expr),
    let step := fun callee _ => Expr.restOfCall (.ofRoom room) callee
    ∃ rounds ≤ row.length + 1, EndsAfter (foldWhile.round (· = .leftParen) step setting) rounds
      (row, first, []) ((foldWhile (· = .leftParen) step first).run setting row)
  arguments : ∀ room (first : Array Expr),
    let step := fun earlier _ => Expr.argument (.ofRoom room) earlier
    ∃ rounds ≤ row.length + 1, EndsAfter (foldWhile.round (· = .comma) step setting) rounds
      (row, first, []) ((foldWhile (· = .comma) step first).run setting row)
  dropping : ∀ t rest, row = t :: rest → ∃ rounds ≤ row.length + 1,
    EndsAfter dropStatement.round rounds (rest, t) (dropStatement row)

theorem loopsEnd (setting : Setting) (row : List Token) : LoopsEnd setting row := by
  have hcollect (stops : TokenKind → Bool) (room : Nat) : ∃ rounds ≤ row.length + 1,
      EndsAfter (collectUntil.round stops (Stmt.parser room) setting) rounds (row, [], [])
        ((collectUntil stops (Stmt.parser room)).run setting row) := by
    obtain ⟨rounds, hle, hends⟩ :=
      collectUntil.exists_endsAfter stops (Stmt.advances_of_room room) setting row
    exact ⟨rounds, by omega, hends⟩
  have hfold {β : Type} (accepts : TokenKind → Bool) (step : β → Token → Parser β) (first : β) :
      ∃ rounds ≤ row.length + 1, EndsAfter (foldWhile.round accepts step setting) rounds
        (row, first, []) ((foldWhile accepts step first).run setting row) := by
    obtain ⟨rounds, hle, hends⟩ := foldWhile.exists_endsAfter accepts step setting first row
    exact ⟨rounds, by omega, hends⟩
  constructor
  case program => exact hcollect _ maxNesting
  case block => exact hcollect _
  case operators => exact fun _ _ => hfold _ _
  case calls => exact fun _ => hfold _ _
  case arguments => exact fun _ => hfold _ _
  case dropping =>
    rintro t rest rfl
    obtain ⟨rounds, hle, hends⟩ := dropStatement.exists_endsAfter t rest
    rw [List.length_cons]
    exact ⟨rounds, by omega, hends⟩

namespace TokenStream

variable {tokens : List Token} {stream : TokenStream}

/-- The place of the first token at `start` or behind it that ends the input, or the place behind all
tokens if there is none. -/
def endFrom (tokens : List Token) (start : Nat) : Nat :=
  start + ((tokens.drop start).takeWhile (·.kind != .endOfInput)).length

theorem endFrom_position (h : stream.tokens <:+ (ofTokens tokens).tokens) :
    endFrom tokens (position tokens stream) = (ofTokens tokens).tokens.length := by
  have hle := h.length_le
  unfold endFrom
  rw [takeWhile_drop_position h]
  unfold position
  omega

/-- From each place that readings come to, a declaration moves on, but not past the first token that
ends the input. All loops end, and a program is read just up to that token. -/
theorem advances_and_ends (tokens : List Token) (options : Options) (entries : List Entry) :
    let stream := (ofTokens tokens).after options entries
    let setting : Setting := ⟨options, stream.inputEnd⟩
    let cursor := fun row => position tokens ⟨row, stream.inputEnd⟩
    (∀ room row, row <:+ stream.tokens → row ≠ [] →
      ∃ found errors left, (Stmt.parser room).run setting row = ⟨.ok found, errors, left⟩ ∧
        left <:+ row ∧ cursor row < cursor left ∧ cursor left ≤ endFrom tokens (cursor row)) ∧
      (∀ row, LoopsEnd setting row) ∧
      position tokens (stream.readProgram options).2 = endFrom tokens (position tokens stream) := by
  intro stream setting cursor
  have hsuffix : stream.tokens <:+ (ofTokens tokens).tokens := after_suffix entries
  refine ⟨?_, loopsEnd setting, ?_⟩
  · intro room row hrow hne
    obtain ⟨t, more, rfl⟩ := List.exists_cons_of_ne_nil hne
    obtain ⟨found, errors, left, hrun⟩ :
        ∃ found errors left, (Stmt.parser room).run setting (t :: more) =
          ⟨.ok found, errors, left⟩ := neverStops_resume _ setting (t :: more)
    have hlt := (Stmt.advances_of_room room).length_lt_of_run hrun
    have hrow := hrow.trans hsuffix
    have hle := hrow.length_le
    refine ⟨found, errors, left, hrun, suffix_of_run hrun, ?_, ?_⟩
    · unfold cursor position
      dsimp only
      omega
    · rw [endFrom_position hrow]
      exact Nat.sub_le _ _
  · rw [endFrom_position hsuffix, position, readProgram_tokens]
    rfl

/-- A stray brace and a group that is never closed, with a number behind the end of the input. -/
def strayBrace : List Token :=
  Token.ofKinds [.rightBrace, .leftParen, .nilKeyword, .endOfInput, .number, .endOfInput]

theorem advances_and_ends_behind_stray_brace :
    (strayBrace.drop 1).take 2 ≠ [] ∧
      (∃ found errors left, (Stmt.parser 2).run ⟨.strict, .nowhere⟩ ((strayBrace.drop 1).take 2) =
          ⟨.ok found, errors, left⟩ ∧ left.length < 2) ∧
      position strayBrace ((ofTokens strayBrace).readProgram .strict).2 = 3 := by
  have h := advances_and_ends strayBrace .strict []
  obtain ⟨found, errors, left, hrun, -, hlt, -⟩ :=
    h.1 2 ((strayBrace.drop 1).take 2) ⟨strayBrace.take 1, rfl⟩ (List.cons_ne_nil _ _)
  have hlt : 3 - 2 < 3 - left.length := hlt
  exact ⟨List.cons_ne_nil _ _, ⟨found, errors, left, hrun, by omega⟩, h.2.2⟩

end TokenStream

end ScriptSyntax
