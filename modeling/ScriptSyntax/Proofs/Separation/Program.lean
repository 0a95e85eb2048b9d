import ScriptSyntax.Proofs.Session
import ScriptSyntax.Proofs.Separation.Single
/-! # Programs up to a semicolon

What stands behind a semicolon is read as if nothing stood in front of it, as long as no block and no
conditional is open there.
-/

namespace ScriptSyntax.TokenStream

open ScriptSyntax.Parser

variable {setting setting' : Setting} {tokens more : List Token} {statements others : List Stmt}
  {errors told : List SyntaxError}

theorem run_program_cons {t : Token} {found : Option Stmt} {left : List Token}
    (hfound : (Stmt.parser maxNesting).run setting (t :: tokens) = ⟨.ok found, told, left⟩)
    (hleft : program.run setting left = ⟨.ok statements, errors, []⟩) :
    program.run setting (t :: tokens) = ⟨.ok (found.toList ++ statements), told ++ errors, []⟩ :=
  run_collectUntil_of_item (Stmt.advances_of_room maxNesting) rfl hfound hleft

theorem program_settled (hsingle : Stmt.Single tokens) (hne : tokens ≠ [])
    (h : program.run setting tokens = ⟨.ok statements, errors, []⟩) :
    ∃ found : Option Stmt, statements = found.toList ∧ Stmt.Settled setting.options found errors := by
  obtain ⟨t, tokens, rfl⟩ := List.exists_cons_of_ne_nil hne
  obtain ⟨found, told, hfound, hsettled⟩ := Stmt.declaration_settled maxNesting hsingle hne
  have hnone : program.run setting [] = ⟨.ok [], [], []⟩ := rfl
  obtain ⟨rfl, rfl⟩ : found.toList = statements ∧ told = errors := by
    simpa using (run_program_cons hfound hnone).symm.trans h
  exact ⟨found, rfl, hsettled⟩

/-! ## Streams -/

theorem readProgram_append {stream stream' both : TokenStream} (options : Options)
    (htokens : stream.tokens = tokens) (hended : Ended tokens)
    (hboth : both.tokens = tokens ++ stream'.tokens) (hend : both.inputEnd = stream'.inputEnd) :
    (both.readProgram options).1.value =
        (stream.readProgram options).1.value ++ (stream'.readProgram options).1.value ∧
      (both.readProgram options).1.errors =
        (stream.readProgram options).1.errors ++ (stream'.readProgram options).1.errors := by
  have hoptions : (Setting.mk options stream'.inputEnd).options =
      (Setting.mk options stream.inputEnd).options := rfl
  have hrun := run_program stream options
  rw [htokens] at hrun
  have happend := Stmt.declarations_append maxNesting hoptions hended (fun _ _ => rfl) hrun
    (run_program stream' options)
  have hread := run_program both options
  rw [hboth, hend, program, happend] at hread
  simp only [Outcome.mk.injEq, Except.ok.injEq] at hread
  exact ⟨hread.1.symm, hread.2.1.symm⟩

theorem readProgram_settled {stream : TokenStream} (options : Options)
    (htokens : stream.tokens = tokens) (hsingle : Stmt.Single tokens) (hne : tokens ≠ []) :
    ∃ found : Option Stmt, (stream.readProgram options).1.value = found.toList ∧
      Stmt.Settled options found (stream.readProgram options).1.errors := by
  have hrun := run_program stream options
  rw [htokens] at hrun
  exact program_settled hsingle hne hrun

/-- What stands behind a semicolon is read as if nothing stood in front of it, and the other way
round, where no block and no conditional is open. If the semicolon ends a single statement, that
statement or one error comes of it, besides those that do not stop an expression. -/
theorem readProgram_behind_semicolon (options : Options) (front back : List Token)
    (semicolon eof eof' : Token)
    (hfront : ∀ t ∈ front, t.kind ≠ .leftBrace ∧ t.kind ≠ .ifKeyword ∧ t.kind ≠ .endOfInput)
    (hsemicolon : semicolon.kind = .semicolon) (heof : eof.kind = .endOfInput)
    (heof' : eof'.kind = .endOfInput) :
    let first := ((ofTokens (front ++ [semicolon] ++ [eof])).readProgram options).1
    let second := ((ofTokens (back ++ [eof'])).readProgram options).1
    let both := ((ofTokens (front ++ [semicolon] ++ back ++ [eof'])).readProgram options).1
    let stoppers := first.errors.filter fun e => e.cause.message ≠ "Invalid assignment target." ∧
      e.cause.message ≠ "Can't have more than 255 arguments."
    both.value = first.value ++ second.value ∧ both.errors = first.errors ++ second.errors ∧
      ((∀ t ∈ front, t.kind ≠ .semicolon) →
        (∀ t ∈ front.tail, t.kind ≠ .rightBrace ∧ t.kind.startsStatement = false) →
        first.value.length ≤ 1 ∧ stoppers.length ≤ 1 ∧
          (options.strictSemicolons = true → first.value.length + stoppers.length = 1)) := by
  intro first second both stoppers
  have hstoppers : stoppers = Stmt.stoppers first.errors :=
    (Stmt.stoppers_eq_filter_message first.errors).symm
  have hne : ∀ t ∈ front ++ [semicolon], t.kind ≠ .endOfInput := by
    simpa [or_imp, forall_and, hsemicolon] using fun t ht => (hfront t ht).2.2
  have hended : Ended (front ++ [semicolon]) := by
    constructor
    · simpa using hsemicolon
    · simpa [or_imp, forall_and, hsemicolon] using
        ⟨fun t ht => (hfront t ht).1, fun t ht => (hfront t ht).2.1⟩
  have htokens : (ofTokens (front ++ [semicolon] ++ [eof])).tokens = front ++ [semicolon] := by
    rw [ofTokens_append hne, ofTokens_endOfInput heof, List.append_nil]
  have hboth := ofTokens_append hne (back ++ [eof'])
  have hend : (ofTokens (front ++ [semicolon] ++ (back ++ [eof']))).inputEnd = _ :=
    ofTokens_append_inputEnd hne heof'
  rw [← List.append_assoc] at hboth hend
  obtain ⟨hvalue, herrors⟩ := readProgram_append options htokens hended hboth hend
  refine ⟨hvalue, herrors, fun honly hwhole => ?_⟩
  have hsingle : Stmt.Single (front ++ [semicolon]) := by
    refine ⟨hended, by simpa using honly, ?_⟩
    cases front with
    | nil => simp
    | cons t front =>
      rw [List.cons_append, List.tail_cons]
      intro t ht
      rcases List.mem_append.1 ht with ht | ht
      · exact hwhole t ht
      · obtain rfl := List.mem_singleton.1 ht
        rw [hsemicolon]
        decide
  obtain ⟨found, hfound, hsettled⟩ := readProgram_settled options htokens hsingle (by simp)
  have hlength : first.value.length = found.toList.length := congrArg List.length hfound
  rw [hstoppers, hlength]
  exact ⟨by cases found <;> simp, hsettled.le_one, hsettled.strict⟩

/-- A number that nothing is assigned to. -/
def brokenAssignment : List Token := Token.ofKinds [.number, .equal, .rightParen]

/-- An alternative without a condition. -/
def strayAlternative : List Token :=
  Token.ofKinds [.elseKeyword, .printKeyword, .nilKeyword, .semicolon]

theorem readProgram_behind_broken_assignment :
    let first := ((ofTokens (brokenAssignment ++ [.ofKind .semicolon] ++
      [.ofKind .endOfInput])).readProgram .strict).1
    let second := ((ofTokens (strayAlternative ++ [.ofKind .endOfInput])).readProgram .strict).1
    let both := ((ofTokens (brokenAssignment ++ [.ofKind .semicolon] ++ strayAlternative ++
      [.ofKind .endOfInput])).readProgram .strict).1
    second.value ≠ [] ∧ both.value = first.value ++ second.value ∧
      both.errors = first.errors ++ second.errors ∧
      first.value.length + (first.errors.filter fun e =>
        e.cause.message ≠ "Invalid assignment target." ∧
          e.cause.message ≠ "Can't have more than 255 arguments.").length = 1 := by
  have h := readProgram_behind_semicolon .strict brokenAssignment strayAlternative
    (.ofKind .semicolon) (.ofKind .endOfInput) (.ofKind .endOfInput) (by decide) rfl rfl rfl
  exact ⟨List.cons_ne_nil _ _, h.1, h.2.1, (h.2.2 (by decide) (by decide)).2.2 rfl⟩

end ScriptSyntax.TokenStream
