import ScriptSyntax.Proofs.Separation.Stmt
/-! # What may come of one statement

The tokens up to the next semicolon make at most one statement and at most one error that is more than
a remark about an expression.
-/

namespace ScriptSyntax.Stmt

open ScriptSyntax.Parser

variable {setting : Setting} {tokens read rest left : List Token} {errors : List SyntaxError}
  {options : Options} {expression : Parser Expr} {deeper : Deeper} {s : Stmt}

/-! ## The tokens of one statement -/

/-- The tokens of one statement, whether it is broken or not: its semicolon is the only one and stands
at the end, and nothing behind its first token ends a block or starts a statement. -/
structure Single (tokens : List Token) : Prop extends Ended tokens where
  only : ∀ t ∈ tokens.dropLast, t.kind ≠ .semicolon
  whole : ∀ t ∈ tokens.tail, t.kind ≠ .rightBrace ∧ t.kind.startsStatement = false

theorem Single.of_cons {t : Token} (h : Single (t :: tokens)) : Single tokens where
  toEnded := h.toEnded.of_suffix (List.suffix_cons t tokens)
  only u hu := by
    cases tokens with
    | nil => contradiction
    | cons next tokens => exact h.only u (List.mem_cons_of_mem t hu)
  whole u hu := h.whole u (List.mem_of_mem_tail hu)

theorem Single.of_suffix (h : Single tokens) (hsuffix : rest <:+ tokens) : Single rest := by
  obtain ⟨read, rfl⟩ := hsuffix
  induction read with
  | nil => exact h
  | cons t read ih => exact ih h.of_cons

theorem Single.rest_eq_nil {semicolon : Token} (h : Single (read ++ semicolon :: rest))
    (hsemicolon : semicolon.kind = .semicolon) : rest = [] := by
  have h := h.of_suffix (List.suffix_append read _)
  cases rest with
  | nil => rfl
  | cons t rest => exact absurd hsemicolon (h.only semicolon (by simp))

theorem Single.dropStatement_eq_nil (h : Single tokens) : dropStatement tokens = [] := by
  cases tokens with
  | nil => rfl
  | cons t tokens => exact (dropStatement_eq_nil_iff t tokens).2 ⟨h.only, fun u hu => (h.whole u hu).2⟩

/-! ## Its errors -/

/-- The errors that would have stopped an expression. -/
def stoppers (errors : List SyntaxError) : List SyntaxError :=
  errors.filter fun e => !e.cause.isPassing

theorem stoppers_eq_filter_message (errors : List SyntaxError) :
    stoppers errors = errors.filter fun e => e.cause.message ≠ "Invalid assignment target." ∧
      e.cause.message ≠ "Can't have more than 255 arguments." := by
  refine List.filter_congr fun e _ => ?_
  rw [Bool.eq_iff_iff, decide_eq_true_iff, ← not_or, ← SyntaxCause.isPassing_iff]
  simp

theorem stoppers_append (errors errors' : List SyntaxError) :
    stoppers (errors ++ errors') = stoppers errors ++ stoppers errors' :=
  List.filter_append errors errors'

theorem stoppers_eq_nil (h : ∀ e ∈ errors, e.cause.isPassing = true) : stoppers errors = [] := by
  simpa [stoppers] using h

/-- What may come of one statement: at most one statement and at most one error that is no passing
one, and without a missing semicolon that is forgiven just one of the two. -/
structure Settled (options : Options) (found : Option Stmt) (errors : List SyntaxError) : Prop where
  le_one : (stoppers errors).length ≤ 1
  strict : options.strictSemicolons = true → found.toList.length + (stoppers errors).length = 1

theorem Settled.of_passing (h : ∀ e ∈ errors, e.cause.isPassing = true) :
    Settled options (some s) errors := by
  have := stoppers_eq_nil h
  exact ⟨by simp [this], fun _ => by simp [this]⟩

theorem Settled.of_stopped {e : SyntaxError}
    (h : ∀ e ∈ errors, e.cause.isPassing = true) (he : e.cause.isPassing = false) :
    Settled options none (errors ++ [e]) := by
  have : stoppers (errors ++ [e]) = [e] := by
    rw [stoppers_append, stoppers_eq_nil h]
    simp [stoppers, he]
  exact ⟨by simp [this], fun _ => by simp [this]⟩

theorem Settled.of_forgiven {e : SyntaxError} (hlenient : options.strictSemicolons = false)
    (h : ∀ e ∈ errors, e.cause.isPassing = true) : Settled options (some s) (errors ++ [e]) := by
  have : (stoppers (errors ++ [e])).length ≤ 1 := by
    rw [stoppers_append, stoppers_eq_nil h, List.nil_append]
    exact List.length_filter_le _ [e]
  exact ⟨this, fun hstrict => by simp [hlenient] at hstrict⟩

/-! ## What the parsers make of it -/

theorem bareExpression_settled (hexpression : expression.Confined bounds)
    (hne : ∀ ⦃setting read rest e errors⦄, expression.Takes setting read rest e errors → read ≠ [])
    (hsingle : Single (read ++ rest)) (hnonempty : read ++ rest ≠ [])
    (h : (bareExpression expression).Takes setting read rest s errors) :
    rest = [] ∧ Settled setting.options (some s) errors := by
  obtain ⟨value, ts, us, told, last, rfl, rfl, rfl, hvalue, hlast⟩ := takes_bareExpression_iff.1 h
  obtain ⟨hts, htold⟩ := hexpression.of_takes hvalue
  rw [List.append_assoc] at hsingle hnonempty
  rcases takes_semicolon_iff.1 hlast with ⟨t, ht, rfl, rfl⟩ | ⟨-, hlenient, rfl, hrest⟩
  · rw [List.append_nil]
    exact ⟨hsingle.rest_eq_nil ht, .of_passing htold⟩
  · have hleft : us ++ rest ≠ [] := hsingle.toEnded.ne_nil hnonempty hts
    -- The expression took the first token, and no other one begins a statement.
    have hgo : atStatementEnd (us ++ rest) = false := by
      obtain ⟨t, left, ht⟩ := List.exists_cons_of_ne_nil hleft
      obtain ⟨first, ts, rfl⟩ := List.exists_cons_of_ne_nil (hne hvalue)
      rw [ht] at hsingle ⊢
      have := hsingle.whole t (by simp)
      simp [atStatementEnd, this]
    rw [hgo, if_neg Bool.false_ne_true,
      (hsingle.of_suffix (List.suffix_append ts _)).dropStatement_eq_nil] at hrest
    exact ⟨hrest, .of_forgiven hlenient htold⟩

theorem variableOrStatement_settled (hexpression : expression.Confined bounds)
    (hne : ∀ ⦃setting read rest e errors⦄, expression.Takes setting read rest e errors → read ≠ [])
    (hsingle : Single (read ++ rest)) (hnonempty : read ++ rest ≠ [])
    (h : (variableOrStatement expression (statement expression deeper)).Takes setting read rest s
      errors) :
    rest = [] ∧ Settled setting.options (some s) errors := by
  rcases takes_variableOrStatement_iff.1 h with ⟨keyword, ts, -, rfl, h₁⟩ | ⟨-, h₁⟩
  · rcases takes_restOfVariable_iff.1 h₁ with ⟨name, semicolon, -, hsemicolon, rfl, rfl, rfl⟩ |
      ⟨name, equals, value, ts, semicolon, -, -, hsemicolon, rfl, rfl, hvalue⟩
    · have hsingle : Single ([keyword, name] ++ semicolon :: rest) := by simpa using hsingle
      exact ⟨hsingle.rest_eq_nil hsemicolon, .of_passing (by simp)⟩
    · have hsingle : Single (keyword :: name :: equals :: ts ++ semicolon :: rest) := by
        simpa using hsingle
      exact ⟨hsingle.rest_eq_nil hsemicolon, .of_passing (hexpression.of_takes hvalue).2⟩
  · rcases takes_statement_iff.1 h₁ with ⟨t, ts, hkind, rfl, -⟩ | ⟨t, ts, -, rfl, h₂⟩ |
      ⟨t, ts, hkind, rfl, -⟩ | ⟨-, h₂⟩
    · exact absurd hkind (hsingle.flat t (by simp)).2
    · obtain ⟨value, ts, semicolon, rfl, rfl, hsemicolon, hvalue⟩ := takes_restOfPrint_iff.1 h₂
      have hsingle : Single (t :: ts ++ semicolon :: rest) := by simpa using hsingle
      exact ⟨hsingle.rest_eq_nil hsemicolon, .of_passing (hexpression.of_takes hvalue).2⟩
    · exact absurd hkind (hsingle.flat t (by simp)).1
    · exact bareExpression_settled hexpression hne hsingle hnonempty h₂

theorem declaration_settled (room : Nat) (hsingle : Single tokens) (hne : tokens ≠ []) :
    ∃ found errors, (parser room).run setting tokens = ⟨.ok found, errors, []⟩ ∧
      Settled setting.options found errors := by
  have hconfined := confined_of_expression (Expr.confined_of_room room)
  obtain ⟨found, errors, rest, hrun⟩ :
      ∃ found errors rest, (parser room).run setting tokens = ⟨.ok found, errors, rest⟩ :=
    neverStops_resume _ setting tokens
  obtain ⟨read, rfl, htakes⟩ := takes_of_run hrun
  rcases takes_resume_iff.1 htakes with ⟨s, rfl, hs⟩ | ⟨told, e, left, rfl, rfl, rfl, hs⟩
  · obtain ⟨rfl, hsettled⟩ := variableOrStatement_settled hconfined
      (fun _ _ _ _ _ h => (Expr.makes_of_room room).ne_nil h) hsingle hne hs
    exact ⟨_, _, hrun, hsettled⟩
  · have hflat : ∀ t ∈ (read ++ dropStatement left).head?,
        t.kind ≠ .leftBrace ∧ t.kind ≠ .ifKeyword :=
      fun t ht => hsingle.flat t (List.mem_of_mem_head? ht)
    obtain ⟨⟨taken, htokens, -⟩, htold, hstopping⟩ :=
      stopsConfined_variableOrStatement allowDeclarations_bounds hconfined hflat hs
    have hleft := (hsingle.of_suffix ⟨taken, htokens.symm⟩).dropStatement_eq_nil
    exact ⟨none, told ++ [e], by rw [hrun, hleft], .of_stopped htold (hstopping e rfl)⟩

end ScriptSyntax.Stmt
