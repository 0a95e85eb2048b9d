import ScriptSyntax.Proofs.Confinement
import ScriptSyntax.Proofs.Locality
/-! # Declarations up to a semicolon

A declaration that opens neither a block nor a conditional does not look behind the last semicolon of
a row, whether it is read or dropped.
-/

namespace ScriptSyntax

variable {tokens left more : List Token}

/-- A row that is empty or ends with a semicolon, and opens neither a block nor a conditional. -/
structure Ended (tokens : List Token) : Prop where
  last : ∀ t ∈ tokens.getLast?, t.kind = .semicolon
  flat : ∀ t ∈ tokens, t.kind ≠ .leftBrace ∧ t.kind ≠ .ifKeyword

theorem Ended.of_suffix {rest : List Token} (h : Ended tokens) (hsuffix : rest <:+ tokens) :
    Ended rest where
  last t ht := h.last t (by
    obtain ⟨read, rfl⟩ := hsuffix
    rw [List.getLast?_append, Option.mem_def.1 ht]
    rfl)
  flat t ht := h.flat t (hsuffix.subset ht)

theorem Ended.ne_nil {read rest : List Token} (h : Ended (read ++ rest)) (hne : read ++ rest ≠ [])
    (hread : ∀ t ∈ read, t.kind ≠ .semicolon) : rest ≠ [] := by
  rintro rfl
  rw [List.append_nil] at h hne
  have hlast := List.getLast?_eq_some_getLast hne
  exact hread _ (List.getLast_mem hne) (h.last _ hlast)

theorem dropStatement_append_of_eq_nil (h : Ended left) (hne : left ≠ [])
    (hdrop : dropStatement left = []) (more : List Token) : dropStatement (left ++ more) = more := by
  -- Nothing inside the row stopped it, and the semicolon at the end does.
  induction left with
  | nil => contradiction
  | cons t left ih =>
    cases left with
    | nil =>
      have ht := h.last t rfl
      cases more with
      | nil => rfl
      | cons next more => simp [dropStatement, ht]
    | cons next left =>
      simp only [List.cons_append] at ih ⊢
      unfold dropStatement at hdrop ⊢
      split at hdrop
      · contradiction
      · rename_i hgo
        rw [if_neg hgo]
        exact ih (h.of_suffix (List.suffix_cons t _)) (List.cons_ne_nil next left) hdrop

theorem atStatementEnd_append (hne : left ≠ []) (more : List Token) :
    atStatementEnd (left ++ more) = atStatementEnd left := by
  cases left with
  | nil => contradiction
  | cons t left => rfl

namespace Stmt

open ScriptSyntax.Parser

variable {setting setting' : Setting} {read rest : List Token} {errors : List SyntaxError}
  {expression : Parser Expr} {deeper : Deeper} {s : Stmt}

/-! ## Where a declaration is stopped -/

/-- What a declaration does where it is stopped: it takes no semicolon, and it has told of no error
that would have stopped it. -/
def bounds : Bounds where
  taken kind := kind ≠ .semicolon
  told cause := cause.isPassing = true
  stopping cause := cause.isPassing = false

theorem confined_of_expression (h : expression.Confined Expr.bounds) :
    expression.Confined bounds := by
  refine h.mono (fun kind hkind hsemicolon => ?_) (fun _ => id) (fun _ => id)
  rw [hsemicolon] at hkind
  contradiction

/-- Bounds that allow for what stands in a declaration beside its expressions, and for the errors
that stop it there. -/
structure AllowDeclarations (limits : Bounds) : Prop where
  taken : ∀ kind ∈ [.printKeyword, .varKeyword, .identifier, .equal], limits.taken kind
  stopping : ∀ cause ∈ [.noSemicolonAfterValue, .noSemicolonAfterVariable, .noVariableName],
    limits.stopping cause

theorem allowDeclarations_bounds : AllowDeclarations bounds where
  taken := by simp [bounds]
  stopping := by simp [bounds, SyntaxCause.isPassing]

section stopped

variable {limits : Bounds} (hlimits : AllowDeclarations limits)
include hlimits

theorem stopsConfined_semicolon_bind_pure (s : Stmt) :
    (semicolon >>= fun _ => pure s).StopsConfined limits := by
  intro setting tokens e he
  have hmissing (hnext : ∀ t ∈ tokens.head?, t.kind ≠ .semicolon) :
      ((semicolon >>= fun _ => pure s).run setting tokens).Confined limits tokens := by
    rw [run_bind, run_semicolon_of_ne hnext] at he ⊢
    split at he
    · rename_i hstrict
      rw [if_pos hstrict]
      refine ⟨⟨[], rfl, by simp⟩, by simp, fun e he => ?_⟩
      cases he
      exact hlimits.stopping .noSemicolonAfterValue (by decide)
    · contradiction
  cases tokens with
  | nil => exact hmissing (by simp)
  | cons t tokens =>
    by_cases ht : t.kind = .semicolon
    · rw [run_bind, run_semicolon_of_eq ht] at he
      contradiction
    · exact hmissing (by simpa using ht)

theorem stopsConfined_restOfVariable (h : expression.Confined limits) :
    (restOfVariable expression).StopsConfined limits := by
  have hname := hlimits.taken .identifier (by decide)
  refine (confined_expect hname (hlimits.stopping _ (by decide))).stopsConfined_bind fun name =>
    Confined.stopsConfined_bind ?_ fun _ =>
      stopsConfined_expect_bind_pure (hlimits.stopping _ (by decide)) _ _
  refine confined_onNext (fun kind p hp => ?_) (confined_pure none)
  split at hp
  · cases hp
    exact ⟨hlimits.taken _ (by decide), fun _ => h.bind fun _ => confined_pure _⟩
  · contradiction

theorem stopsConfined_statement (h : expression.Confined limits) (hflat : ∀ t ∈ tokens.head?,
    t.kind ≠ .leftBrace ∧ t.kind ≠ .ifKeyword) {e : SyntaxError}
    (he : ((statement expression deeper).run setting tokens).result = .error e) :
    ((statement expression deeper).run setting tokens).Confined limits tokens := by
  have hbare : (bareExpression expression).StopsConfined limits :=
    h.stopsConfined_bind fun value => stopsConfined_semicolon_bind_pure hlimits (.expression value)
  unfold statement at he ⊢
  cases tokens with
  | nil => exact hbare setting [] e he
  | cons t tokens =>
    obtain ⟨hbrace, hif⟩ := hflat t rfl
    by_cases hprint : t.kind = .printKeyword
    · rw [run_onNext_of_eq_some (by rw [hprint])] at he ⊢
      have hrest : (restOfPrint expression).StopsConfined limits :=
        h.stopsConfined_bind fun value =>
          stopsConfined_expect_bind_pure (hlimits.stopping _ (by decide)) _ _
      have ht : limits.taken t.kind := hprint ▸ hlimits.taken _ (by decide)
      exact (hrest setting tokens e he).cons ht
    · rw [run_onNext_of_eq_none (by split <;> first | contradiction | rfl)] at he ⊢
      exact hbare setting (t :: tokens) e he

theorem stopsConfined_variableOrStatement (h : expression.Confined limits)
    (hflat : ∀ t ∈ tokens.head?, t.kind ≠ .leftBrace ∧ t.kind ≠ .ifKeyword) {e : SyntaxError}
    {told : List SyntaxError}
    (hrun : (variableOrStatement expression (statement expression deeper)).run setting tokens =
      ⟨.error e, told, left⟩) :
    (⟨.error e, told, left⟩ : Outcome Stmt).Confined limits tokens := by
  have hstatement : ((statement expression deeper).run setting tokens).result = .error e →
      ((statement expression deeper).run setting tokens).Confined limits tokens :=
    stopsConfined_statement hlimits h hflat
  unfold variableOrStatement at hrun
  cases tokens with
  | nil =>
    rw [run_onNext_nil] at hrun
    rw [← hrun]
    exact hstatement (by rw [hrun])
  | cons t tokens =>
    by_cases hvar : t.kind = .varKeyword
    · rw [run_onNext_of_eq_some (by rw [hvar])] at hrun
      have := stopsConfined_restOfVariable hlimits h setting tokens e (by rw [hrun])
      rw [hrun] at this
      have ht : limits.taken t.kind := hvar ▸ hlimits.taken _ (by decide)
      exact this.cons ht
    · rw [run_onNext_of_eq_none (by split <;> first | contradiction | rfl)] at hrun
      rw [← hrun]
      exact hstatement (by rw [hrun])

end stopped

/-! ## In front of other tokens -/

section extension

variable (hexpression : expression.Confined bounds) (hlocal : expression.Local)
  (hoptions : setting'.options = setting.options)
include hexpression hlocal hoptions

theorem bareExpression_append (hended : Ended tokens) (hne : tokens ≠ [])
    (h : (bareExpression expression).Takes setting tokens [] s errors) (more : List Token) :
    (bareExpression expression).Takes setting' tokens more s errors := by
  obtain ⟨value, ts, us, told, last, rfl, rfl, rfl, hvalue, hlast⟩ := takes_bareExpression_iff.1 h
  have hus : us ≠ [] := hended.ne_nil hne (hexpression.of_takes hvalue).1
  have hsite := Setting.site_eq_of_ne_nil hus setting setting' more
  rw [List.append_nil] at hvalue
  refine takes_bareExpression_iff.2 ⟨value, ts, us, told, last, rfl, rfl, rfl,
    hlocal hoptions hsite hvalue, ?_⟩
  rcases takes_semicolon_iff.1 hlast with ⟨t, ht, rfl, rfl⟩ | ⟨hnext, hlenient, rfl, hrest⟩
  · exact takes_semicolon_iff.2 (.inl ⟨t, ht, rfl, rfl⟩)
  · rw [List.append_nil] at hnext hrest
    rw [← hoptions] at hlenient
    split at hrest
    · exact absurd hrest.symm hus
    rename_i hgo
    refine takes_semicolon_iff.2 (.inr ⟨?_, hlenient, by rw [hsite, List.append_nil], ?_⟩)
    · cases us with
      | nil => contradiction
      | cons t us => exact hnext
    · have hended := hended.of_suffix (List.suffix_append ts us)
      rw [atStatementEnd_append hus, if_neg hgo,
        dropStatement_append_of_eq_nil hended hus hrest.symm]

theorem statement_append (hended : Ended tokens) (hne : tokens ≠ [])
    (h : (statement expression deeper).Takes setting tokens [] s errors) (more : List Token) :
    (statement expression deeper).Takes setting' tokens more s errors := by
  rcases takes_statement_iff.1 h with ⟨t, ts, hkind, rfl, -⟩ | ⟨t, ts, hkind, rfl, h₁⟩ |
    ⟨t, ts, hkind, rfl, -⟩ | ⟨hothers, h₁⟩
  · exact absurd hkind (hended.flat t (by simp)).2
  · obtain ⟨value, ts, semicolon, rfl, rfl, hsemicolon, hvalue⟩ := takes_restOfPrint_iff.1 h₁
    exact takes_statement_iff.2 (.inr (.inl ⟨t, _, hkind, rfl, takes_restOfPrint_iff.2
      ⟨value, ts, semicolon, rfl, rfl, hsemicolon, hlocal hoptions rfl hvalue⟩⟩))
  · exact absurd hkind (hended.flat t (by simp)).1
  · refine takes_statement_iff.2 (.inr (.inr (.inr ⟨?_, ?_⟩)))
    · cases tokens with
      | nil => contradiction
      | cons t tokens => exact hothers
    · exact bareExpression_append hexpression hlocal hoptions hended hne h₁ more

theorem variableOrStatement_append (hended : Ended tokens) (hne : tokens ≠ [])
    (h : (variableOrStatement expression (statement expression deeper)).Takes setting tokens [] s
      errors) (more : List Token) :
    (variableOrStatement expression (statement expression deeper)).Takes setting' tokens more s
      errors := by
  rcases takes_variableOrStatement_iff.1 h with ⟨keyword, ts, hkeyword, rfl, h₁⟩ | ⟨hnext, h₁⟩
  · refine takes_variableOrStatement_iff.2 (.inl ⟨keyword, ts, hkeyword, rfl, ?_⟩)
    rcases takes_restOfVariable_iff.1 h₁ with hnone | ⟨name, equals, value, ts, semicolon, hname,
      hequals, hsemicolon, rfl, rfl, hvalue⟩
    · exact takes_restOfVariable_iff.2 (.inl hnone)
    · exact takes_restOfVariable_iff.2 (.inr ⟨name, equals, value, ts, semicolon, hname, hequals,
        hsemicolon, rfl, rfl, hlocal hoptions rfl hvalue⟩)
  · refine takes_variableOrStatement_iff.2 (.inr ⟨?_, ?_⟩)
    · cases tokens with
      | nil => contradiction
      | cons t tokens => exact hnext
    · exact statement_append hexpression hlocal hoptions hended hne h₁ more

end extension

theorem declaration_append (room : Nat) {result : Except SyntaxError (Option Stmt)}
    (hoptions : setting'.options = setting.options) (hended : Ended tokens) (hne : tokens ≠ [])
    (h : (parser room).run setting tokens = ⟨result, errors, rest⟩) (more : List Token) :
    (parser room).run setting' (tokens ++ more) = ⟨result, errors, rest ++ more⟩ := by
  -- Only where nothing is left may the declaration have seen the end of the row.
  by_cases hrest : rest ≠ []
  · exact (local_of_room room).run_append hoptions h hrest more
  obtain rfl : rest = [] := by simpa using hrest
  have hconfined := confined_of_expression (Expr.confined_of_room room)
  have hlocal := Expr.local_of_room room
  obtain ⟨found, errors', rest', hok⟩ := neverStops_resume _ setting tokens
  obtain ⟨rfl, rfl, rfl⟩ : .ok found = result ∧ errors' = errors ∧ rest' = [] := by
    simpa using hok.symm.trans h
  rcases takes_resume_iff.1 (takes_to_end_iff.2 hok) with ⟨s, rfl, hs⟩ |
    ⟨told, e, left, rfl, rfl, hdrop, hs⟩
  · have := variableOrStatement_append hconfined hlocal hoptions hended hne hs more
    exact takes_resume_iff.2 (.inl ⟨s, rfl, this⟩)
  · rw [List.append_nil] at hs
    have hflat : ∀ t ∈ tokens.head?, t.kind ≠ .leftBrace ∧ t.kind ≠ .ifKeyword :=
      fun t ht => hended.flat t (List.mem_of_mem_head? ht)
    obtain ⟨⟨read, rfl, hread⟩, -, -⟩ :=
      stopsConfined_variableOrStatement allowDeclarations_bounds hconfined hflat hs
    have hleft := hended.ne_nil hne hread
    have hmore := (has_declared_of_room compositional_local room).run_append hoptions hs hleft more
    have hended := hended.of_suffix (List.suffix_append read left)
    refine (run_resume_of_error hmore).trans ?_
    rw [dropStatement_append_of_eq_nil hended hleft hdrop.symm, List.nil_append]

/-! ## All declarations of such a row -/

theorem declarations_append (room : Nat) {stops : TokenKind → Bool} {statements others : List Stmt}
    {told : List SyntaxError} (hoptions : setting'.options = setting.options)
    (hended : Ended tokens) (hgo : ∀ t ∈ tokens, stops t.kind = false)
    (h : (collectUntil stops (parser room)).run setting tokens = ⟨.ok statements, errors, []⟩)
    (hmore : (collectUntil stops (parser room)).run setting' more = ⟨.ok others, told, rest⟩) :
    (collectUntil stops (parser room)).run setting' (tokens ++ more) =
      ⟨.ok (statements ++ others), errors ++ told, rest⟩ := by
  -- The first declaration advances and leaves a row of the same form, or nothing.
  induction hn : tokens.length using Nat.strongRecOn generalizing tokens statements errors with
  | _ n ih =>
  cases tokens with
  | nil =>
    obtain ⟨rfl, rfl⟩ : [] = statements ∧ [] = errors := by simpa using h
    exact hmore
  | cons t tokens =>
    have hadvances := advances_of_room room
    obtain ⟨found, first, left, hfound⟩ :
        ∃ found first left, (parser room).run setting (t :: tokens) = ⟨.ok found, first, left⟩ :=
      neverStops_resume _ setting (t :: tokens)
    have hleft := suffix_of_run hfound
    have hgoes := fun u hu => hgo u (hleft.subset hu)
    obtain ⟨later, errors', hlater⟩ :=
      exists_run_collectUntil hadvances (neverStops_resume _) setting hgoes
    have hlt := hadvances.length_lt_of_run hfound
    rw [hn] at hlt
    have hboth := ih _ hlt (hended.of_suffix hleft) hgoes hlater rfl
    have hfirst := declaration_append room hoptions hended (List.cons_ne_nil t tokens) hfound more
    have ht := hgo t List.mem_cons_self
    obtain ⟨rfl, rfl⟩ : found.toList ++ later = statements ∧ first ++ errors' = errors := by
      simpa using (run_collectUntil_of_item hadvances ht hfound hlater).symm.trans h
    have := run_collectUntil_of_item hadvances ht hfirst hboth
    simpa using this

end Stmt

end ScriptSyntax
