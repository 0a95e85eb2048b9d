import ScriptSyntax.Parser.Basic
/-! # Going on behind an error -/

namespace ScriptSyntax

/-- Drops a token, and then all up to the place where a statement may start: behind a semicolon, or
in front of a keyword that begins a statement. -/
def dropStatement : List Token → List Token
  | [] => []
  | [_] => []
  | t :: next :: rest =>
    if t.kind = .semicolon || next.kind.startsStatement then next :: rest
    else dropStatement (next :: rest)

theorem dropStatement_suffix (tokens : List Token) : dropStatement tokens <:+ tokens := by
  fun_induction dropStatement tokens with
  | case1 => exact List.suffix_rfl
  | case2 => exact List.nil_suffix
  | case3 t next rest _ => exact List.suffix_cons _ _
  | case4 t next rest _ ih => exact ih.trans (List.suffix_cons _ _)

theorem length_dropStatement_le (t : Token) (rest : List Token) :
    (dropStatement (t :: rest)).length ≤ rest.length := by
  induction rest generalizing t with
  | nil => simp [dropStatement]
  | cons next rest ih =>
    unfold dropStatement
    split
    · exact Nat.le_refl _
    · exact Nat.le_succ_of_le (ih next)

theorem dropStatement_ne_self (t : Token) (rest : List Token) :
    dropStatement (t :: rest) ≠ t :: rest := by
  intro h
  have hlength := length_dropStatement_le t rest
  rw [h, List.length_cons] at hlength
  omega

theorem dropStatement_eq_nil_iff (t : Token) (rest : List Token) :
    dropStatement (t :: rest) = [] ↔
      (∀ u ∈ (t :: rest).dropLast, u.kind ≠ .semicolon) ∧
        ∀ u ∈ rest, u.kind.startsStatement = false := by
  induction rest generalizing t with
  | nil => simp [dropStatement]
  | cons next rest ih =>
    unfold dropStatement
    rw [List.dropLast_cons_cons]
    split
    · rename_i hstop
      rw [Bool.or_eq_true, decide_eq_true_iff] at hstop
      simp only [List.forall_mem_cons]
      grind
    · rename_i hgo
      rw [Bool.or_eq_true, decide_eq_true_iff] at hgo
      rw [ih]
      simp only [List.forall_mem_cons]
      grind

/-- Whether a statement that lacks its semicolon ends in front of these tokens all the same. -/
def atStatementEnd : List Token → Bool
  | [] => true
  | t :: _ => t.kind = .rightBrace || t.kind.startsStatement

namespace Parser

variable {α : Type}

/-- Where `p` is stopped, tells of the error and goes on at the next statement. -/
def resume (p : Parser α) : Parser (Option α) where
  run setting tokens :=
    let outcome := p.run setting tokens
    match outcome.result with
    | .ok a => ⟨.ok (some a), outcome.errors, outcome.rest⟩
    | .error e => ⟨.ok none, outcome.errors ++ [e], dropStatement outcome.rest⟩
  rest_suffix setting tokens := by
    dsimp only
    split
    · exact p.rest_suffix setting tokens
    · exact (dropStatement_suffix _).trans (p.rest_suffix setting tokens)

theorem run_resume_of_ok {p : Parser α} {setting : Setting} {tokens rest : List Token} {a : α}
    {errors : List SyntaxError} (h : p.run setting tokens = ⟨.ok a, errors, rest⟩) :
    p.resume.run setting tokens = ⟨.ok (some a), errors, rest⟩ := by
  simp [resume, h]

theorem run_resume_of_error {p : Parser α} {setting : Setting} {tokens rest : List Token}
    {e : SyntaxError} {errors : List SyntaxError}
    (h : p.run setting tokens = ⟨.error e, errors, rest⟩) :
    p.resume.run setting tokens = ⟨.ok none, errors ++ [e], dropStatement rest⟩ := by
  simp [resume, h]

/-- Drops what is left of a statement, unless it ends here. -/
def finishStatement : Parser Unit where
  run _ tokens :=
    ⟨.ok (), [], if atStatementEnd tokens then tokens else dropStatement tokens⟩
  rest_suffix _ tokens := by
    dsimp only
    split
    · exact List.suffix_rfl
    · exact dropStatement_suffix tokens

end Parser

end ScriptSyntax
