import ScriptSyntax.Proofs.Completeness.Expr
import ScriptSyntax.Proofs.Progress
/-! # Every statement of the grammar is read

The tokens that write statements are read as these statements. An `else` behind a conditional without
an alternative is the one token that must not follow.
-/

namespace ScriptSyntax.Stmt

open ScriptSyntax.Parser
open ScriptSyntax.Expr (tooManyAt EndsBefore)

variable {setting : Setting} {ts us vs rest : List Token} {s : Stmt} {ss : List Stmt} {room : Nat}

/-- What stands behind a statement does not go on with it. -/
def MayPrecede (s : Stmt) (rest : List Token) : Prop :=
  s.endsOpen = true → ∀ t ∈ rest.head?, t.kind ≠ .elseKeyword

/-! ## Statements that are no conditionals -/

theorem endsBefore_of_kind {t : Token} {kind : TokenKind} (h : t.kind = kind)
    (hkind : Expr.holdOf? kind = none) : EndsBefore 0 (t :: rest) :=
  Expr.endsBefore_of_holdOf?_eq_none (by rw [h]; exact hkind) 0

section value

variable {expression : Parser Expr} {value : Expr} {keyword name equals semicolon : Token}
  {errors : List SyntaxError}

theorem takes_bareExpression (h : value.Derivable) (hw : value.Writes ts)
    (hsemicolon : semicolon.kind = .semicolon)
    (hvalue : expression.Takes setting ts (semicolon :: rest) value errors) (deeper : Deeper) :
    (statement expression deeper).Takes setting (ts ++ [semicolon]) rest (.expression value)
      errors := by
  obtain ⟨t, more, rfl, ht, -⟩ := h.exists_first hw
  refine takes_statement_iff.2 (.inr (.inr (.inr ⟨?_, ?_⟩)))
  · simp only [List.cons_append, List.head?_cons, Option.mem_some_iff, forall_eq']
    refine ⟨?_, ?_, ?_⟩ <;> intro hkind <;> rw [hkind] at ht <;> contradiction
  · exact takes_bareExpression_iff.2 ⟨value, _, [semicolon], _, [], rfl, rfl, by simp, hvalue,
      takes_semicolon_iff.2 (.inl ⟨semicolon, hsemicolon, rfl, rfl⟩)⟩

theorem takes_print (hkeyword : keyword.kind = .printKeyword)
    (hsemicolon : semicolon.kind = .semicolon)
    (hvalue : expression.Takes setting ts (semicolon :: rest) value errors) (deeper : Deeper) :
    (statement expression deeper).Takes setting (keyword :: ts ++ [semicolon]) rest (.print value)
      errors :=
  takes_statement_iff.2 (.inr (.inl ⟨keyword, _, hkeyword, rfl,
    takes_restOfPrint_iff.2 ⟨value, ts, semicolon, rfl, rfl, hsemicolon, hvalue⟩⟩))

theorem takes_varOnly (hkeyword : keyword.kind = .varKeyword) (hname : name.kind = .identifier)
    (hsemicolon : semicolon.kind = .semicolon) (statement : Parser Stmt) :
    (declaration expression statement).Takes setting [keyword, name, semicolon] rest
      (some (.var name none)) [] :=
  takes_resume_iff.2 (.inl ⟨_, rfl, takes_variableOrStatement_iff.2 (.inl ⟨_, _, hkeyword, rfl,
    takes_restOfVariable_iff.2 (.inl ⟨_, _, hname, hsemicolon, rfl, rfl, rfl⟩)⟩)⟩)

theorem takes_varWith (hkeyword : keyword.kind = .varKeyword) (hname : name.kind = .identifier)
    (hequals : equals.kind = .equal) (hsemicolon : semicolon.kind = .semicolon)
    (hvalue : expression.Takes setting ts (semicolon :: rest) value errors)
    (statement : Parser Stmt) :
    (declaration expression statement).Takes setting (keyword :: name :: equals :: ts ++ [semicolon])
      rest (some (.var name (some value))) errors :=
  takes_resume_iff.2 (.inl ⟨_, rfl, takes_variableOrStatement_iff.2 (.inl ⟨_, _, hkeyword, rfl,
    takes_restOfVariable_iff.2 (.inr ⟨_, _, _, _, _, hname, hequals, hsemicolon, rfl, rfl,
      hvalue⟩)⟩)⟩)

theorem takes_declaration_of_statement {statement : Parser Stmt} (h : s.Derivable)
    (hform : s.isVariable = false) (hw : s.Writes ts)
    (hs : statement.Takes setting ts rest s errors) :
    (declaration expression statement).Takes setting ts rest (some s) errors := by
  obtain ⟨t, more, rfl, -, -, -, ht⟩ := h.exists_first hw
  refine takes_resume_iff.2 (.inl ⟨s, rfl, takes_variableOrStatement_iff.2 (.inr ⟨?_, hs⟩)⟩)
  simpa using ht hform

end value

theorem takes_variable (h : s.Derivable) (hform : s.isVariable = true) (hw : s.Writes ts)
    (hroom : s.nesting ≤ room) :
    (parser room).Takes setting ts rest (some s) ((s.excess ts).map tooManyAt) := by
  cases h with
  | var hname hinitializer =>
    cases hw with
    | varOnly hkeyword hsemicolon => exact takes_varOnly hkeyword hname hsemicolon _
    | varWith hkeyword hequals hvalue hsemicolon =>
      have h := hinitializer _ rfl
      rw [excess_var (h.length_eq hvalue)]
      exact takes_varWith hkeyword hname hequals hsemicolon
        (h.takes_of_room hvalue hroom (endsBefore_of_kind hsemicolon rfl)) _
  | _ => contradiction

/-! ## Conditionals -/

section conditional

variable {expression : Parser Expr} {statement : Parser Stmt} {condition : Expr}
  {branch alternative : Stmt} {opening closing keyword : Token} {es es' es'' : List SyntaxError}

theorem takes_ifThen (hopening : opening.kind = .leftParen) (hclosing : closing.kind = .rightParen)
    (hcondition : expression.Takes setting ts (closing :: us ++ rest) condition es)
    (hbranch : statement.Takes setting us rest branch es')
    (hnext : ∀ t ∈ rest.head?, t.kind ≠ .elseKeyword) :
    (restOfConditional expression statement).Takes setting (opening :: ts ++ closing :: us) rest
      (ifThen condition branch) (es ++ es') := by
  refine takes_restOfConditional_iff.2 ⟨opening, condition, ts, closing, branch, us, [], es, es', [],
    hopening, hclosing, by simp, by simp, ?_, hbranch, .inr ⟨hnext, rfl, rfl, rfl⟩⟩
  simpa using hcondition

theorem takes_ifElse (hopening : opening.kind = .leftParen) (hclosing : closing.kind = .rightParen)
    (hcondition : expression.Takes setting ts (closing :: us ++ (keyword :: vs ++ rest)) condition es)
    (hbranch : statement.Takes setting us (keyword :: vs ++ rest) branch es')
    (hkeyword : keyword.kind = .elseKeyword)
    (halternative : statement.Takes setting vs rest alternative es'') :
    (restOfConditional expression statement).Takes setting
      (opening :: ts ++ closing :: us ++ keyword :: vs) rest (ifElse condition branch alternative)
      (es ++ (es' ++ es'')) := by
  refine takes_restOfConditional_iff.2 ⟨opening, condition, ts, closing, branch, us, keyword :: vs, es,
    es', es'', hopening, hclosing, by simp, rfl, ?_, hbranch,
    .inl ⟨keyword, alternative, vs, hkeyword, rfl, rfl, halternative⟩⟩
  simpa using hcondition

end conditional

/-! ## Statements in a row -/

theorem takes_declaration (h : s.Derivable) (hw : s.Writes ts) (hroom : s.nesting ≤ room)
    (hs : s.isVariable = false → (statement (Expr.parser room) (Deeper.ofRoom room)).Takes setting ts
      rest s ((s.excess ts).map tooManyAt)) :
    (parser room).Takes setting ts rest (some s) ((s.excess ts).map tooManyAt) := by
  cases hform : s.isVariable with
  | true => exact takes_variable h hform hw hroom
  | false => exact takes_declaration_of_statement h hform hw (hs hform)

/-- Statements are read as declarations if each of them is, in front of what may follow it. -/
def ReadsEach (item : Parser (Option Stmt)) (setting : Setting) (ss : List Stmt) : Prop :=
  ∀ s ∈ ss, s.Derivable ∧ ∀ ts rest, s.Writes ts → s.MayPrecede rest →
    item.Takes setting ts rest (some s) ((s.excess ts).map tooManyAt)

theorem WritesAll.kind_ne_else (hw : WritesAll ss ts) (hss : ∀ s ∈ ss, s.Derivable)
    (hrest : ∀ t ∈ rest.head?, t.kind ≠ .elseKeyword) :
    ∀ t ∈ (ts ++ rest).head?, t.kind ≠ .elseKeyword := by
  cases hw with
  | nil => exact hrest
  | cons hfirst =>
    obtain ⟨t, more, rfl, helse, -⟩ := (hss _ (by simp)).exists_first hfirst
    simpa using helse

/-- A statement in front of others does not go on with them, nor with what stops them. -/
theorem WritesAll.mayPrecede (hw : WritesAll ss us) (hss : ∀ s ∈ ss, s.Derivable)
    {stops : TokenKind → Bool} (hstops : ∀ kind, stops kind = true → kind = .rightBrace)
    (hrest : ∀ t ∈ rest.head?, stops t.kind = true) (s : Stmt) : s.MayPrecede (us ++ rest) :=
  fun _ => hw.kind_ne_else hss fun t ht hkind => by
    have := hstops _ (hrest t ht)
    rw [hkind] at this
    contradiction

theorem takes_all_cons {item : Parser (Option Stmt)} (hadvances : item.Advances)
    {stops : TokenKind → Bool} (hstops : ∀ kind, stops kind = true → kind = .rightBrace)
    {errors errors' : List SyntaxError} (h : s.Derivable) (hw : s.Writes ts)
    (hs : item.Takes setting ts (us ++ rest) (some s) errors)
    (hss : (collectUntil stops item).Takes setting us rest ss errors') :
    (collectUntil stops item).Takes setting (ts ++ us) rest (s :: ss) (errors ++ errors') := by
  obtain ⟨t, more, rfl, -, -, hbrace, -⟩ := h.exists_first hw
  have hgo : stops t.kind = false := Bool.eq_false_iff.2 fun hstop => hbrace (hstops _ hstop)
  refine (takes_collectUntil_iff hadvances).2 (.inr ⟨t, _, rfl, hgo, ?_⟩)
  exact hs.bind (takes_bind_pure_iff.2 ⟨ss, rfl, hss⟩)

theorem takes_all {item : Parser (Option Stmt)} (hadvances : item.Advances)
    (hss : ReadsEach item setting ss) (hw : WritesAll ss ts) {stops : TokenKind → Bool}
    (hstops : ∀ kind, stops kind = true → kind = .rightBrace)
    (hrest : ∀ t ∈ rest.head?, stops t.kind = true) :
    (collectUntil stops item).Takes setting ts rest ss ((excessOfAll ss ts).map tooManyAt) := by
  induction ss generalizing ts with
  | nil =>
    cases hw
    exact (takes_collectUntil_iff hadvances).2 (.inl ⟨hrest, rfl, rfl, rfl⟩)
  | cons s ss ih =>
    cases hw with
    | cons hfirst hothers =>
      obtain ⟨hderivable, hread⟩ := hss s (by simp)
      have hderivables : ∀ s ∈ ss, s.Derivable := fun s hs => (hss s (by simp [hs])).1
      have hitem := hread _ _ hfirst (hothers.mayPrecede hderivables hstops hrest s)
      have hmore := ih (fun s hs => hss s (by simp [hs])) hothers
      rw [excessOfAll_cons (hderivable.length_eq hfirst), List.map_append]
      exact takes_all_cons hadvances hstops hderivable hfirst hitem hmore

/-! ## All statements -/

theorem Derivable.takes_statement (h : s.Derivable) (hform : s.isVariable = false)
    (hw : s.Writes ts) (hroom : s.nesting ≤ room) (hrest : s.MayPrecede rest) :
    (statement (Expr.parser room) (Deeper.ofRoom room)).Takes setting ts rest s
      ((s.excess ts).map tooManyAt) := by
  induction h generalizing ts room rest with
  | expression h =>
    cases hw with
    | expression hvalue hsemicolon =>
      rw [excess_expression (h.length_eq hvalue)]
      exact takes_bareExpression h hvalue hsemicolon
        (h.takes_of_room hvalue hroom (endsBefore_of_kind hsemicolon rfl)) _
  | print h =>
    cases hw with
    | print hkeyword hvalue hsemicolon =>
      rw [excess_print (h.length_eq hvalue)]
      exact takes_print hkeyword hsemicolon
        (h.takes_of_room hvalue hroom (endsBefore_of_kind hsemicolon rfl)) _
  | var => contradiction
  | @block ss hss ih =>
    cases hw with
    | block hopening hall hclosing =>
      obtain ⟨room, rfl⟩ := Nat.exists_eq_succ_of_ne_zero (Nat.ne_zero_of_lt hroom)
      have hroom := nestingOfAll_le_iff.1 (Nat.le_of_succ_le_succ hroom)
      have heach : ReadsEach (parser room) setting ss := fun s hs => ⟨hss s hs, fun _ _ hw hrest =>
        takes_declaration (hss s hs) hw (hroom s hs) fun hform => ih s hs hform hw (hroom s hs) hrest⟩
      rw [excess_block (hall.length_eq fun s hs _ => (hss s hs).length_eq)]
      refine takes_statement_iff.2 (.inr (.inr (.inl ⟨_, _, hopening, rfl, ?_⟩)))
      refine takes_restOfBlock_iff.2 ⟨_, _, _, rfl, rfl, hclosing, ?_⟩
      exact takes_all (advances_of_room room) heach hall (by simp) (by simp [hclosing])
  | ifThen h hb hbranch ih =>
    cases hw with
    | ifThen hkeyword hopening hcondition hclosing hwb =>
      obtain ⟨room, rfl⟩ := Nat.exists_eq_succ_of_ne_zero (Nat.ne_zero_of_lt hroom)
      obtain ⟨hroom, hroomb⟩ := Nat.max_le.1 (Nat.le_of_succ_le_succ hroom)
      have hbranch := ih hbranch hwb hroomb fun _ => hrest rfl
      rw [excess_ifThen (h.length_eq hcondition), List.map_append]
      refine takes_statement_iff.2 (.inl ⟨_, _, hkeyword, rfl, ?_⟩)
      refine takes_ifThen hopening hclosing (h.takes_of_room hcondition hroom ?_) hbranch (hrest rfl)
      exact endsBefore_of_kind hclosing rfl
  | ifElse h hb hbranch hclosed ha halternative ih ih' =>
    cases hw with
    | ifElse hkeyword hopening hcondition hclosing hwb hkeyword' hwa =>
      obtain ⟨room, rfl⟩ := Nat.exists_eq_succ_of_ne_zero (Nat.ne_zero_of_lt hroom)
      obtain ⟨hroom, hrooms⟩ := Nat.max_le.1 (Nat.le_of_succ_le_succ hroom)
      obtain ⟨hroomb, hrooma⟩ := Nat.max_le.1 hrooms
      -- The branch leaves no conditional open, so the `else` behind it is not taken for it.
      have hnext (rest : List Token) : MayPrecede _ rest := fun hopen =>
        absurd hopen (Bool.eq_false_iff.1 hclosed)
      have halternative := ih' halternative hwa hrooma hrest
      rw [excess_ifElse (h.length_eq hcondition) (hb.length_eq hwb), List.map_append,
        List.map_append]
      refine takes_statement_iff.2 (.inl ⟨_, _, hkeyword, rfl, ?_⟩)
      refine takes_ifElse hopening hclosing (h.takes_of_room hcondition hroom ?_)
        (ih hbranch hwb hroomb (hnext _)) hkeyword' halternative
      exact endsBefore_of_kind hclosing rfl

theorem Derivable.takes_of_room (h : s.Derivable) (hw : s.Writes ts) (hroom : s.nesting ≤ room)
    (hrest : s.MayPrecede rest) :
    (parser room).Takes setting ts rest (some s) ((s.excess ts).map tooManyAt) :=
  takes_declaration h hw hroom fun hform => h.takes_statement hform hw hroom hrest

end ScriptSyntax.Stmt
