import ScriptSyntax.Proofs.Parser.Takes
import ScriptSyntax.Stmt.Parser
/-! # What the parsers for statements take

For each of them, what it takes in terms of what the parsers that it is made of take.
-/

namespace ScriptSyntax

variable {setting : Setting} {read rest : List Token} {errors : List SyntaxError}

namespace Parser

variable {α : Type}

theorem takes_resume_iff {p : Parser α} {found : Option α} :
    p.resume.Takes setting read rest found errors ↔
      (∃ a, found = some a ∧ p.Takes setting read rest a errors) ∨
      ∃ told e left, found = none ∧ errors = told ++ [e] ∧ rest = dropStatement left ∧
        p.run setting (read ++ rest) = ⟨.error e, told, left⟩ := by
  unfold Takes
  rcases hp : p.run setting (read ++ rest) with ⟨e | a, told, left⟩
  · rw [run_resume_of_error hp]
    simp only [Outcome.mk.injEq, Except.ok.injEq]
    constructor
    · rintro ⟨rfl, rfl, hrest⟩
      exact .inr ⟨told, e, left, rfl, rfl, hrest.symm, rfl, rfl, rfl⟩
    · rintro (⟨a, -, h, -⟩ | ⟨told, e, left, rfl, rfl, hrest, h, rfl, rfl⟩)
      · contradiction
      · cases h
        exact ⟨rfl, rfl, hrest.symm⟩
  · rw [run_resume_of_ok hp]
    simp only [Outcome.mk.injEq, Except.ok.injEq]
    constructor
    · rintro ⟨rfl, rfl, rfl⟩
      exact .inl ⟨a, rfl, rfl, rfl, rfl⟩
    · rintro (⟨a, rfl, rfl, rfl, rfl⟩ | ⟨told, e, left, -, -, -, h, -, -⟩)
      · exact ⟨rfl, rfl, rfl⟩
      · contradiction

theorem takes_finishStatement_iff {u : Unit} :
    finishStatement.Takes setting read rest u errors ↔
      rest = (if atStatementEnd (read ++ rest) then read ++ rest else dropStatement (read ++ rest)) ∧
        errors = [] := by
  simp only [Takes, finishStatement, Outcome.mk.injEq, true_and]
  constructor
  · intro h
    exact ⟨h.2.symm, h.1.symm⟩
  · intro h
    exact ⟨h.2.symm, h.1.symm⟩

end Parser

namespace Stmt

open ScriptSyntax.Parser

variable {expression : Parser Expr} {s : Stmt}

theorem takes_restOfPrint_iff :
    (restOfPrint expression).Takes setting read rest s errors ↔
      ∃ value ts semicolon, s = print value ∧ read = ts ++ [semicolon] ∧
        semicolon.kind = .semicolon ∧
        expression.Takes setting ts (semicolon :: rest) value errors := by
  unfold restOfPrint
  rw [takes_bind_iff]
  simp only [takes_expect_bind_iff, takes_pure_iff]
  constructor
  · rintro ⟨ts, _, value, _, _, rfl, rfl, h, semicolon, _, hkind, rfl, rfl, rfl, rfl⟩
    exact ⟨value, ts, semicolon, rfl, rfl, hkind, by simpa using h⟩
  · rintro ⟨value, ts, semicolon, rfl, rfl, hkind, h⟩
    exact ⟨ts, [semicolon], value, errors, [], rfl, by simp, h, semicolon, [], hkind, rfl, rfl, rfl,
      rfl⟩

theorem run_semicolon_of_eq {t : Token} (h : t.kind = .semicolon) (rest : List Token) :
    semicolon.run setting (t :: rest) = ⟨.ok (), [], rest⟩ := by
  unfold semicolon
  rw [run_onNext_of_eq_some (by rw [h]), run_pure]

theorem run_semicolon_of_ne {tokens : List Token}
    (h : ∀ t ∈ tokens.head?, t.kind ≠ .semicolon) :
    semicolon.run setting tokens =
      if setting.options.strictSemicolons then
        ⟨.error ⟨setting.site tokens, .noSemicolonAfterValue⟩, [], tokens⟩
      else
        ⟨.ok (), [⟨setting.site tokens, .noSemicolonAfterValue⟩],
          if atStatementEnd tokens then tokens else dropStatement tokens⟩ := by
  have hotherwise : semicolon.run setting tokens =
      (do
        if (← options).strictSemicolons then fail .noSemicolonAfterValue
        else
          reportNext .noSemicolonAfterValue
          finishStatement : Parser Unit).run setting tokens := by
    unfold semicolon
    cases tokens with
    | nil => rfl
    | cons t tokens =>
      refine run_onNext_of_eq_none ?_ setting tokens
      have ht := h t rfl
      split
      · contradiction
      · rfl
  rw [hotherwise, run_bind, run_options, Outcome.andThen_ok]
  split
  · rfl
  · rfl

/-- A semicolon is taken where there is one. Where it is missing it is told of, which is left out
only by the strict options, and what is left of the statement is dropped. -/
theorem takes_semicolon_iff {u : Unit} :
    semicolon.Takes setting read rest u errors ↔
      (∃ t, t.kind = .semicolon ∧ read = [t] ∧ errors = []) ∨
      (∀ t ∈ (read ++ rest).head?, t.kind ≠ .semicolon) ∧
        setting.options.strictSemicolons = false ∧
        errors = [⟨setting.site (read ++ rest), .noSemicolonAfterValue⟩] ∧
        rest = (if atStatementEnd (read ++ rest) then read ++ rest
          else dropStatement (read ++ rest)) := by
  unfold semicolon
  rw [takes_onNext_kind_iff rfl (fun k hk => by split <;> first | contradiction | rfl),
    takes_bind_iff]
  simp only [takes_options_iff, takes_pure_iff]
  constructor
  · rintro (⟨t, more, hkind, rfl, rfl, -, rfl⟩ |
      ⟨hnext, _, ts, o, _, told, rfl, rfl, ⟨rfl, rfl, rfl⟩, h⟩)
    · exact .inl ⟨t, hkind, rfl, rfl⟩
    · split at h
      · exact absurd h not_takes_fail
      rename_i hlenient
      rw [takes_bind_iff] at h
      simp only [takes_reportNext_iff, takes_finishStatement_iff] at h
      obtain ⟨_, ts, _, _, _, rfl, rfl, ⟨rfl, rfl⟩, hrest, rfl⟩ := h
      exact .inr ⟨hnext, by simpa using hlenient, by simp, by simpa using hrest⟩
  · rintro (⟨t, hkind, rfl, rfl⟩ | ⟨hnext, hlenient, rfl, hrest⟩)
    · exact .inl ⟨t, [], hkind, rfl, rfl, trivial, rfl⟩
    · refine .inr ⟨hnext, [], read, setting.options, [], _, rfl, rfl, ⟨rfl, rfl, rfl⟩, ?_⟩
      rw [if_neg (by simp [hlenient]), takes_bind_iff]
      simp only [takes_reportNext_iff, takes_finishStatement_iff]
      exact ⟨[], read, (), _, [], rfl, by simp, ⟨rfl, rfl⟩, hrest, rfl⟩

theorem takes_bareExpression_iff :
    (bareExpression expression).Takes setting read rest s errors ↔
      ∃ value ts us told last, s = .expression value ∧ read = ts ++ us ∧ errors = told ++ last ∧
        expression.Takes setting ts (us ++ rest) value told ∧
        semicolon.Takes setting us rest () last := by
  unfold bareExpression
  rw [takes_bind_iff]
  simp only [takes_bind_pure_iff]
  constructor
  · rintro ⟨ts, us, value, told, last, rfl, rfl, h, _, rfl, hsemicolon⟩
    exact ⟨value, ts, us, told, last, rfl, rfl, rfl, h, hsemicolon⟩
  · rintro ⟨value, ts, us, told, last, rfl, rfl, rfl, h, hsemicolon⟩
    exact ⟨ts, us, value, told, last, rfl, rfl, h, (), rfl, hsemicolon⟩

theorem takes_statement_iff {deeper : Deeper} :
    (statement expression deeper).Takes setting read rest s errors ↔
      (∃ t more, t.kind = .ifKeyword ∧ read = t :: more ∧
        deeper.conditional.Takes setting more rest s errors) ∨
      (∃ t more, t.kind = .printKeyword ∧ read = t :: more ∧
        (restOfPrint expression).Takes setting more rest s errors) ∨
      (∃ t more, t.kind = .leftBrace ∧ read = t :: more ∧
        deeper.block.Takes setting more rest s errors) ∨
      (∀ t ∈ (read ++ rest).head?, t.kind ≠ .ifKeyword ∧ t.kind ≠ .printKeyword ∧
        t.kind ≠ .leftBrace) ∧ (bareExpression expression).Takes setting read rest s errors := by
  unfold statement
  rw [takes_onNext_iff]
  constructor
  · rintro (⟨t, p, more, hp, rfl, h⟩ | ⟨hnext, h⟩)
    · split at hp
      case h_1 hkind => cases hp; exact .inl ⟨t, more, hkind, rfl, h⟩
      case h_2 hkind => cases hp; exact .inr (.inl ⟨t, more, hkind, rfl, h⟩)
      case h_3 hkind => cases hp; exact .inr (.inr (.inl ⟨t, more, hkind, rfl, h⟩))
      case h_4 => contradiction
    · refine .inr (.inr (.inr ⟨fun t ht => ?_, h⟩))
      have := hnext t ht
      refine ⟨?_, ?_, ?_⟩ <;> intro hkind <;> simp [hkind] at this
  · rintro (⟨t, more, hkind, rfl, h⟩ | ⟨t, more, hkind, rfl, h⟩ | ⟨t, more, hkind, rfl, h⟩ |
      ⟨hnext, h⟩)
    · exact .inl ⟨t, _, more, by rw [hkind], rfl, h⟩
    · exact .inl ⟨t, _, more, by rw [hkind], rfl, h⟩
    · exact .inl ⟨t, _, more, by rw [hkind], rfl, h⟩
    · refine .inr ⟨fun t ht => ?_, h⟩
      obtain ⟨hif, hprint, hbrace⟩ := hnext t ht
      split <;> first | contradiction | rfl

theorem takes_initializer_iff {found : Option Expr} :
    (onNext (fun
        | .equal => some fun _ => do return some (← expression)
        | _ => none)
      (pure none)).Takes setting read rest found errors ↔
      (∃ equals ts value, equals.kind = .equal ∧ read = equals :: ts ∧ found = some value ∧
        expression.Takes setting ts rest value errors) ∨
      (∀ t ∈ rest.head?, t.kind ≠ .equal) ∧ read = [] ∧ found = none ∧ errors = [] := by
  rw [takes_onNext_kind_iff rfl (fun k hk => by split <;> first | contradiction | rfl)]
  simp only [takes_bind_pure_iff, takes_pure_iff]
  constructor
  · rintro (⟨equals, ts, hkind, rfl, value, rfl, h⟩ | ⟨hnext, rfl, rfl, rfl⟩)
    · exact .inl ⟨equals, ts, value, hkind, rfl, rfl, h⟩
    · exact .inr ⟨hnext, rfl, rfl, rfl⟩
  · rintro (⟨equals, ts, value, hkind, rfl, rfl, h⟩ | ⟨hnext, rfl, rfl, rfl⟩)
    · exact .inl ⟨equals, ts, hkind, rfl, value, rfl, h⟩
    · exact .inr ⟨hnext, rfl, rfl, rfl⟩

theorem takes_restOfVariable_iff :
    (restOfVariable expression).Takes setting read rest s errors ↔
      (∃ name semicolon, name.kind = .identifier ∧ semicolon.kind = .semicolon ∧
        s = var name none ∧ read = [name, semicolon] ∧ errors = []) ∨
      ∃ name equals value ts semicolon, name.kind = .identifier ∧ equals.kind = .equal ∧
        semicolon.kind = .semicolon ∧ s = var name (some value) ∧
        read = name :: equals :: (ts ++ [semicolon]) ∧
        expression.Takes setting ts (semicolon :: rest) value errors := by
  unfold restOfVariable
  simp only [takes_expect_bind_iff]
  constructor
  · rintro ⟨name, _, hname, rfl, h⟩
    obtain ⟨ts, _, found, _, _, rfl, rfl, hfound, h₁⟩ := takes_bind_iff.1 h
    obtain ⟨semicolon, _, hsemicolon, rfl, h₂⟩ := takes_expect_bind_iff.1 h₁
    obtain ⟨rfl, rfl, rfl⟩ := takes_pure_iff.1 h₂
    rcases takes_initializer_iff.1 hfound with ⟨equals, us, value, hequals, rfl, rfl, hvalue⟩ |
      ⟨-, rfl, rfl, rfl⟩
    · exact .inr ⟨name, equals, value, us, semicolon, hname, hequals, hsemicolon, rfl, rfl,
        by simpa using hvalue⟩
    · exact .inl ⟨name, semicolon, hname, hsemicolon, rfl, rfl, rfl⟩
  · have hlast (semicolon : Token) (hsemicolon : semicolon.kind = .semicolon) (s : Stmt) :
        (expect .semicolon .noSemicolonAfterVariable >>= fun _ => pure s).Takes setting [semicolon]
          rest s [] :=
      takes_expect_bind_iff.2 ⟨semicolon, [], hsemicolon, rfl, takes_pure_iff.2 ⟨rfl, rfl, rfl⟩⟩
    rintro (⟨name, semicolon, hname, hsemicolon, rfl, rfl, rfl⟩ |
      ⟨name, equals, value, ts, semicolon, hname, hequals, hsemicolon, rfl, rfl, hvalue⟩)
    · have hnext : ∀ t ∈ (semicolon :: rest).head?, t.kind ≠ .equal := by simp [hsemicolon]
      exact ⟨name, [semicolon], hname, rfl, takes_bind_iff.2 ⟨[], [semicolon], none, [], [], rfl, rfl,
        takes_initializer_iff.2 (.inr ⟨hnext, rfl, rfl, rfl⟩), hlast semicolon hsemicolon _⟩⟩
    · exact ⟨name, _, hname, rfl, takes_bind_iff.2 ⟨equals :: ts, [semicolon], some value, errors, [],
        rfl, (List.append_nil errors).symm,
        takes_initializer_iff.2 (.inl ⟨equals, ts, value, hequals, rfl, rfl, hvalue⟩),
        hlast semicolon hsemicolon _⟩⟩

theorem takes_alternative_iff {statement : Parser Stmt} {condition : Expr} {branch : Stmt} :
    (onNext (fun
        | .elseKeyword => some fun _ => do return ifElse condition branch (← statement)
        | _ => none)
      (pure (ifThen condition branch))).Takes setting read rest s errors ↔
      (∃ keyword alternative ts, keyword.kind = .elseKeyword ∧ read = keyword :: ts ∧
        s = ifElse condition branch alternative ∧
        statement.Takes setting ts rest alternative errors) ∨
      (∀ t ∈ rest.head?, t.kind ≠ .elseKeyword) ∧ read = [] ∧ s = ifThen condition branch ∧
        errors = [] := by
  rw [takes_onNext_kind_iff rfl (fun k hk => by split <;> first | contradiction | rfl)]
  simp only [takes_bind_pure_iff, takes_pure_iff]
  constructor
  · rintro (⟨keyword, ts, hkind, rfl, alternative, rfl, h⟩ | ⟨hnext, rfl, rfl, rfl⟩)
    · exact .inl ⟨keyword, alternative, ts, hkind, rfl, rfl, h⟩
    · exact .inr ⟨hnext, rfl, rfl, rfl⟩
  · rintro (⟨keyword, alternative, ts, hkind, rfl, rfl, h⟩ | ⟨hnext, rfl, rfl, rfl⟩)
    · exact .inl ⟨keyword, ts, hkind, rfl, alternative, rfl, h⟩
    · exact .inr ⟨hnext, rfl, rfl, rfl⟩

theorem takes_restOfConditional_iff {statement : Parser Stmt} :
    (restOfConditional expression statement).Takes setting read rest s errors ↔
      ∃ opening condition ts closing branch us vs es es' es'', opening.kind = .leftParen ∧
        closing.kind = .rightParen ∧ read = opening :: (ts ++ closing :: (us ++ vs)) ∧
        errors = es ++ (es' ++ es'') ∧
        expression.Takes setting ts (closing :: (us ++ vs) ++ rest) condition es ∧
        statement.Takes setting us (vs ++ rest) branch es' ∧
        ((∃ keyword alternative ts, keyword.kind = .elseKeyword ∧ vs = keyword :: ts ∧
          s = ifElse condition branch alternative ∧
          statement.Takes setting ts rest alternative es'') ∨
        (∀ t ∈ rest.head?, t.kind ≠ .elseKeyword) ∧ vs = [] ∧ s = ifThen condition branch ∧
          es'' = []) := by
  unfold restOfConditional
  simp only [takes_expect_bind_iff]
  constructor
  · rintro ⟨opening, _, hopen, rfl, h⟩
    obtain ⟨ts, _, condition, es, _, rfl, rfl, hcondition, h₁⟩ := takes_bind_iff.1 h
    obtain ⟨closing, _, hclose, rfl, h₂⟩ := takes_expect_bind_iff.1 h₁
    obtain ⟨us, vs, branch, es', es'', rfl, rfl, hbranch, h₃⟩ := takes_bind_iff.1 h₂
    exact ⟨opening, condition, ts, closing, branch, us, vs, es, es', es'', hopen, hclose, rfl, rfl,
      hcondition, hbranch, takes_alternative_iff.1 h₃⟩
  · rintro ⟨opening, condition, ts, closing, branch, us, vs, es, es', es'', hopen, hclose, rfl, rfl,
      hcondition, hbranch, h⟩
    refine ⟨opening, _, hopen, rfl, hcondition.bind ?_⟩
    refine takes_expect_bind_iff.2 ⟨closing, _, hclose, rfl, hbranch.bind ?_⟩
    exact takes_alternative_iff.2 h

theorem takes_restOfBlock_iff {declaration : Parser (Option Stmt)} :
    (restOfBlock declaration).Takes setting read rest s errors ↔
      ∃ statements ts closing, s = block statements ∧ read = ts ++ [closing] ∧
        closing.kind = .rightBrace ∧
        (collectUntil (· = .rightBrace) declaration).Takes setting ts (closing :: rest) statements
          errors := by
  unfold restOfBlock
  rw [takes_bind_iff]
  simp only [takes_expect_bind_iff, takes_pure_iff]
  constructor
  · rintro ⟨ts, _, statements, _, _, rfl, rfl, h, closing, _, hkind, rfl, rfl, rfl, rfl⟩
    exact ⟨statements, ts, closing, rfl, rfl, hkind, by simpa using h⟩
  · rintro ⟨statements, ts, closing, rfl, rfl, hkind, h⟩
    exact ⟨ts, [closing], statements, errors, [], rfl, by simp, h, closing, [], hkind, rfl, rfl, rfl,
      rfl⟩

theorem takes_variableOrStatement_iff {statement : Parser Stmt} :
    (variableOrStatement expression statement).Takes setting read rest s errors ↔
      (∃ keyword more, keyword.kind = .varKeyword ∧ read = keyword :: more ∧
        (restOfVariable expression).Takes setting more rest s errors) ∨
      (∀ t ∈ (read ++ rest).head?, t.kind ≠ .varKeyword) ∧
        statement.Takes setting read rest s errors :=
  takes_onNext_kind_iff rfl (fun k hk => by split <;> first | contradiction | rfl)

end Stmt

end ScriptSyntax
