import ScriptSyntax.Proofs.Enclosure.Stmt
import ScriptSyntax.Proofs.Separation.Program
/-! # Programs behind a block

What is broken in a block stays there if what stands behind the last semicolon leaves the closing
brace, and what stands behind the block is then read as if nothing stood in front of it. Otherwise the
block is never closed.
-/

namespace ScriptSyntax

variable {setting setting' : Setting} {opening closing : Token} {body tokens back : List Token}
  {statements : List Stmt} {errors : List SyntaxError}

namespace Stmt

open ScriptSyntax.Parser

theorem run_declared_of_leftBrace (room : Nat) (setting : Setting) (tokens : List Token)
    (hopening : opening.kind = .leftBrace) :
    (variableOrStatement (Expr.parser (room + 1)) (statement (Expr.parser (room + 1))
        (Deeper.ofRoom (room + 1)))).run setting (opening :: tokens) =
      (restOfBlock (parser room)).run setting tokens := by
  unfold variableOrStatement statement
  rw [run_onNext_of_eq_none (by rw [hopening]), run_onNext_of_eq_some (by rw [hopening])]
  rfl

theorem run_parser_of_block {room : Nat} (hopening : opening.kind = .leftBrace)
    (hclosing : closing.kind = .rightBrace)
    (h : (collectUntil (· = .rightBrace) (parser room)).run setting tokens =
      ⟨.ok statements, errors, closing :: back⟩) :
    (parser (room + 1)).run setting (opening :: tokens) =
      ⟨.ok (some (.block statements)), errors, back⟩ := by
  apply run_resume_of_ok
  rw [run_declared_of_leftBrace room setting tokens hopening]
  unfold restOfBlock
  rw [run_bind, h, Outcome.andThen_ok, run_bind, run_expect_cons, if_pos hclosing]
  simp [Outcome.behind]

theorem run_parser_of_open_block {room : Nat} (hopening : opening.kind = .leftBrace)
    (h : (collectUntil (· = .rightBrace) (parser room)).run setting tokens =
      ⟨.ok statements, errors, []⟩) :
    (parser (room + 1)).run setting (opening :: tokens) =
      ⟨.ok none, errors ++ [⟨.endOfInput setting.inputEnd, .noBraceAfterBlock⟩], []⟩ := by
  have hstopped : (restOfBlock (parser room)).run setting tokens =
      ⟨.error ⟨.endOfInput setting.inputEnd, .noBraceAfterBlock⟩, errors, []⟩ := by
    unfold restOfBlock
    rw [run_bind, h, Outcome.andThen_ok, run_bind, run_expect_nil]
    simp [Outcome.behind, Setting.site]
  rw [← run_declared_of_leftBrace room setting tokens hopening] at hstopped
  exact run_resume_of_error hstopped

theorem sites_of_left {room : Nat} {tokens rest : List Token}
    (h : (collectUntil (· = .rightBrace) (parser room)).run setting tokens =
      ⟨.ok statements, errors, rest⟩) (hne : rest ≠ []) :
    ∀ e ∈ errors, ∃ t ∈ tokens, e.site = .token t := by
  intro e he
  have hall : (collectUntil (· = .rightBrace) (parser room)).Sited (· ∈ tokens) :=
    (Stmt.compositional_sited _).collectUntil (advances_of_room room) (sited_of_room room _)
  have hsited := hall setting tokens fun _ ht => ht
  rw [h] at hsited
  rcases hsited.tells e he with hseen | ⟨hnil, -⟩
  · exact hseen
  · -- An error at the end of the input would have left nothing.
    exact absurd hnil hne

end Stmt

namespace TokenStream

open ScriptSyntax.Parser

theorem program_of_block {others : List Stmt} {told : List SyntaxError}
    (hopening : opening.kind = .leftBrace) (hclosing : closing.kind = .rightBrace)
    (hblock : (collectUntil (· = .rightBrace) (Stmt.parser 63)).run setting (body ++ [closing]) =
      ⟨.ok statements, errors, [closing]⟩) (hoptions : setting'.options = setting.options)
    (hback : program.run setting' back = ⟨.ok others, told, []⟩) :
    program.run setting' (opening :: body ++ closing :: back) =
      ⟨.ok (.block statements :: others), errors ++ told, []⟩ := by
  have hlocal : (collectUntil (· = .rightBrace) (Stmt.parser 63)).Local :=
    compositional_local.collectUntil (Stmt.advances_of_room 63) (Stmt.local_of_room 63)
  have happend := hlocal.run_append hoptions hblock (List.cons_ne_nil closing []) back
  rw [List.append_assoc, List.singleton_append] at happend
  have hfirst := Stmt.run_parser_of_block hopening hclosing happend
  exact run_program_cons hfirst hback

theorem program_of_open_block (hopening : opening.kind = .leftBrace)
    (hblock : (collectUntil (· = .rightBrace) (Stmt.parser 63)).run setting tokens =
      ⟨.ok statements, errors, []⟩) :
    program.run setting (opening :: tokens) =
      ⟨.ok [], errors ++ [⟨.endOfInput setting.inputEnd, .noBraceAfterBlock⟩], []⟩ := by
  have hfirst := Stmt.run_parser_of_open_block hopening hblock
  have hnone : program.run setting [] = ⟨.ok [], [], []⟩ := rfl
  simpa using run_program_cons hfirst hnone

section block

variable {options : Options} {eof : Token} (hbody : ∀ t ∈ body, t.kind ≠ .endOfInput)
  (hopening : opening.kind = .leftBrace) (hclosing : closing.kind = .rightBrace)
include hbody hopening hclosing

theorem block_ne_endOfInput : ∀ t ∈ opening :: body ++ [closing], t.kind ≠ .endOfInput := by
  simpa [or_imp, forall_and, hopening, hclosing] using hbody

theorem readProgram_of_block
    (hblock : (collectUntil (· = .rightBrace) (Stmt.parser 63)).run setting (body ++ [closing]) =
      ⟨.ok statements, errors, [closing]⟩) (hoptions : options = setting.options) (back : List Token)
    (heof : eof.kind = .endOfInput) :
    ((ofTokens (opening :: body ++ [closing] ++ back ++ [eof])).readProgram options).1 =
      ⟨.block statements :: ((ofTokens (back ++ [eof])).readProgram options).1.value,
        errors ++ ((ofTokens (back ++ [eof])).readProgram options).1.errors⟩ := by
  have hne := block_ne_endOfInput hbody hopening hclosing
  have htokens := ofTokens_append hne (back ++ [eof])
  have hend : (ofTokens (opening :: body ++ [closing] ++ (back ++ [eof]))).inputEnd = _ :=
    ofTokens_append_inputEnd hne heof
  rw [← List.append_assoc] at htokens hend
  rw [readProgram_of_run]
  rw [htokens, hend, List.append_assoc, List.singleton_append]
  exact program_of_block hopening hclosing hblock hoptions (run_program _ options)

theorem readProgram_of_block_alone
    (hblock : (collectUntil (· = .rightBrace) (Stmt.parser 63)).run setting (body ++ [closing]) =
      ⟨.ok statements, errors, [closing]⟩) (hoptions : options = setting.options)
    (heof : eof.kind = .endOfInput) :
    ((ofTokens (opening :: body ++ [closing] ++ [eof])).readProgram options).1 =
      ⟨[.block statements], errors⟩ := by
  have h := readProgram_of_block hbody hopening hclosing hblock hoptions [] heof
  have hnothing : ofTokens ([] ++ [eof]) = ⟨[], eof.location⟩ := ofTokens_append_cons (by simp) heof []
  have hnone : (TokenStream.mk [] eof.location).readProgram options = (⟨[], []⟩, _) :=
    readProgram_of_run rfl
  rw [List.append_nil, hnothing, hnone, List.append_nil] at h
  exact h

theorem readProgram_of_open_block
    (hblock : (collectUntil (· = .rightBrace) (Stmt.parser 63)).run ⟨options, eof.location⟩
      (body ++ [closing]) = ⟨.ok statements, errors, []⟩) (heof : eof.kind = .endOfInput) :
    ((ofTokens (opening :: body ++ [closing] ++ [eof])).readProgram options).1 =
      ⟨[], errors ++ [⟨.endOfInput eof.location, .noBraceAfterBlock⟩]⟩ := by
  have hne := block_ne_endOfInput hbody hopening hclosing
  rw [ofTokens_append_cons hne heof [], readProgram_of_run]
  exact program_of_open_block hopening hblock

end block

/-- A block without blocks and conditionals in it is read to its brace just if nothing stands behind
its last semicolon, or an expression that lacks only its semicolon and may. What is broken inside is
then told of at a token inside or at the brace, and what stands behind the block is read as if nothing
stood in front of it. Otherwise going on behind the last error runs over the brace, and the block is
never closed. -/
theorem readProgram_block (options : Options) (body : List Token) (opening closing eof : Token)
    (hbody : ∀ t ∈ body, t.kind ≠ .leftBrace ∧ t.kind ≠ .rightBrace ∧ t.kind ≠ .ifKeyword ∧
      t.kind ≠ .endOfInput)
    (hopening : opening.kind = .leftBrace) (hclosing : closing.kind = .rightBrace)
    (heof : eof.kind = .endOfInput) :
    let alone := ((ofTokens (opening :: body ++ [closing] ++ [eof])).readProgram options).1
    let leaves := Stmt.LeavesBrace (maxNesting - 1) ⟨options, .nowhere⟩ body closing
    (leaves → ∃ statements, alone.value = [.block statements] ∧
      (∀ e ∈ alone.errors, ∃ t ∈ body ++ [closing], e.site = .token t) ∧
      ∀ back eof', eof'.kind = .endOfInput →
        let rest := ((ofTokens (back ++ [eof'])).readProgram options).1
        let whole :=
          ((ofTokens (opening :: body ++ [closing] ++ back ++ [eof'])).readProgram options).1
        whole.value = .block statements :: rest.value ∧
          whole.errors = alone.errors ++ rest.errors) ∧
      (¬ leaves → ∃ errors, alone.value = [] ∧
        alone.errors = errors ++ [⟨.endOfInput eof.location, .noBraceAfterBlock⟩] ∧
        Overruns (behindLastSemicolon body) closing errors) := by
  intro alone leaves
  have hflat : ∀ t ∈ body, t.kind ≠ .leftBrace ∧ t.kind ≠ .rightBrace ∧ t.kind ≠ .ifKeyword :=
    fun t ht => ⟨(hbody t ht).1, (hbody t ht).2.1, (hbody t ht).2.2.1⟩
  have hends : ∀ t ∈ body, t.kind ≠ .endOfInput := fun t ht => (hbody t ht).2.2.2
  constructor
  · intro hleaves
    obtain ⟨statements, errors, hblock⟩ := Stmt.declarations_of_leavesBrace hflat hclosing 63 hleaves
    have halone : alone = ⟨[.block statements], errors⟩ :=
      readProgram_of_block_alone hends hopening hclosing hblock rfl heof
    rw [halone]
    refine ⟨statements, rfl, Stmt.sites_of_left hblock (List.cons_ne_nil closing []), ?_⟩
    intro back eof' heof' rest whole
    have hwhole : whole = ⟨.block statements :: rest.value, errors ++ rest.errors⟩ :=
      readProgram_of_block hends hopening hclosing hblock rfl back heof'
    rw [hwhole]
    exact ⟨rfl, rfl⟩
  · intro hnot
    have hlost : ¬ Stmt.LeavesBrace 63 ⟨options, eof.location⟩ body closing :=
      fun hleaves => hnot (hleaves.of_options rfl)
    obtain ⟨statements, errors, hblock, hover⟩ :=
      Stmt.declarations_overrun_of_not_leavesBrace hflat hclosing 63 hlost
    have halone : alone = ⟨[], errors ++ [⟨.endOfInput eof.location, .noBraceAfterBlock⟩]⟩ :=
      readProgram_of_open_block hends hopening hclosing hblock heof
    rw [halone]
    exact ⟨errors, rfl, rfl, hover⟩

/-- Nothing to print, and a number without its semicolon. -/
def brokenBody : List Token := Token.ofKinds [.printKeyword, .semicolon, .number]

theorem readProgram_block_with_broken_body :
    let lenient := ((ofTokens (.ofKind .leftBrace :: brokenBody ++ [.ofKind .rightBrace] ++
      [.ofKind .endOfInput])).readProgram {}).1
    let strict := ((ofTokens (.ofKind .leftBrace :: brokenBody ++ [.ofKind .rightBrace] ++
      [.ofKind .endOfInput])).readProgram .strict).1
    let rest := ((ofTokens (strayAlternative ++ [.ofKind .endOfInput])).readProgram {}).1
    let whole := ((ofTokens (.ofKind .leftBrace :: brokenBody ++ [.ofKind .rightBrace] ++
      strayAlternative ++ [.ofKind .endOfInput])).readProgram {}).1
    (∀ t ∈ brokenBody, t.kind ≠ .leftBrace ∧ t.kind ≠ .rightBrace ∧ t.kind ≠ .ifKeyword ∧
      t.kind ≠ .endOfInput) ∧ lenient.errors.length = 2 ∧
      (∃ statements, whole.value = .block statements :: rest.value ∧
        whole.errors = lenient.errors ++ rest.errors) ∧ strict.value = [] := by
  intro lenient strict rest whole
  have hbody : ∀ t ∈ brokenBody, t.kind ≠ .leftBrace ∧ t.kind ≠ .rightBrace ∧ t.kind ≠ .ifKeyword ∧
      t.kind ≠ .endOfInput := by decide
  refine ⟨hbody, rfl, ?_, ?_⟩
  · obtain ⟨statements, -, -, hback⟩ := (readProgram_block {} brokenBody (.ofKind .leftBrace)
      (.ofKind .rightBrace) (.ofKind .endOfInput) hbody rfl rfl rfl).1 (.inr ⟨rfl, _, _, rfl⟩)
    exact ⟨statements, hback strayAlternative (.ofKind .endOfInput) rfl⟩
  · have hnot : ¬ Stmt.LeavesBrace (maxNesting - 1) ⟨.strict, .nowhere⟩ brokenBody
        (.ofKind .rightBrace) := by
      rintro (hnone | ⟨hlenient, -⟩)
      · exact List.cons_ne_nil _ _ hnone
      · contradiction
    obtain ⟨errors, hvalue, -⟩ := (readProgram_block .strict brokenBody (.ofKind .leftBrace)
      (.ofKind .rightBrace) (.ofKind .endOfInput) hbody rfl rfl rfl).2 hnot
    exact hvalue

/-- A variable without a name in front of the closing brace: the error is at the brace, which is dropped
with all up to the printed value, and that is read as part of the block. -/
theorem readProgram_block_without_variable_name :
    let body := Token.ofKinds [.varKeyword]
    let rest := ((ofTokens (Token.ofKinds [.printKeyword, .nilKeyword, .semicolon, .endOfInput])).readProgram
      {}).1
    let whole := ((ofTokens (.ofKind .leftBrace :: body ++ [.ofKind .rightBrace] ++
      Token.ofKinds [.printKeyword, .nilKeyword, .semicolon, .endOfInput])).readProgram {}).1
    (∀ t ∈ body, t.kind ≠ .leftBrace ∧ t.kind ≠ .rightBrace ∧ t.kind ≠ .ifKeyword ∧
      t.kind ≠ .endOfInput) ∧ rest.errors = [] ∧
      whole.errors = [⟨.token (.ofKind .rightBrace), .noVariableName⟩,
        ⟨.endOfInput .nowhere, .noBraceAfterBlock⟩] ∧
      ¬ ∃ statements, whole.value = .block statements :: rest.value :=
  ⟨by decide, rfl, rfl, fun ⟨_, h⟩ => List.cons_ne_nil _ _ h.symm⟩

end TokenStream

end ScriptSyntax
