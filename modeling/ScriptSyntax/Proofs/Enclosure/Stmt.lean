import Mathlib.Data.List.DropRight
import ScriptSyntax.Proofs.Separation.Stmt
import ScriptSyntax.Proofs.Sites
/-! # Declarations in front of a closing brace

What stands behind the last semicolon of a block decides whether the brace that closes the block is
left. It is, if nothing stands there, or an expression that the options let go without its semicolon.
In front of anything else, going on behind an error runs over the brace.
-/

namespace ScriptSyntax

variable {body last : List Token} {closing : Token}

/-- The tokens behind the last semicolon. -/
def behindLastSemicolon (body : List Token) : List Token := body.rtakeWhile (·.kind ≠ .semicolon)

/-- A row inside a block that opens neither a block nor a conditional, and has no semicolon in it. -/
def Unended (last : List Token) : Prop :=
  ∀ t ∈ last, t.kind ≠ .leftBrace ∧ t.kind ≠ .rightBrace ∧ t.kind ≠ .ifKeyword ∧ t.kind ≠ .semicolon

theorem unended_behindLastSemicolon (hbody : ∀ t ∈ body, t.kind ≠ .leftBrace ∧ t.kind ≠ .rightBrace ∧
    t.kind ≠ .ifKeyword) : Unended (behindLastSemicolon body) := by
  intro t ht
  obtain ⟨hleft, hright, hif⟩ := hbody t ((List.rtakeWhile_suffix _ body).subset ht)
  exact ⟨hleft, hright, hif, by simpa using List.mem_rtakeWhile_imp ht⟩

theorem exists_ended_append (hbody : ∀ t ∈ body, t.kind ≠ .leftBrace ∧ t.kind ≠ .rightBrace ∧
    t.kind ≠ .ifKeyword) :
    ∃ front, body = front ++ behindLastSemicolon body ∧ Ended front := by
  refine ⟨body.rdropWhile (·.kind ≠ .semicolon), List.rdropWhile_append_rtakeWhile.symm, ?_, ?_⟩
  · intro t ht
    obtain ⟨hne, rfl⟩ := List.mem_getLast?_eq_getLast ht
    simpa using List.rdropWhile_last_not (·.kind ≠ TokenKind.semicolon) body hne
  · intro t ht
    obtain ⟨hleft, -, hif⟩ := hbody t ((List.rdropWhile_prefix _ body).subset ht)
    exact ⟨hleft, hif⟩

theorem Unended.of_suffix {last' : List Token} (h : Unended last) (hsuffix : last' <:+ last) :
    Unended last' :=
  fun t ht => h t (hsuffix.subset ht)

theorem Unended.ne_semicolon (h : Unended last) (hclosing : closing.kind = .rightBrace) :
    ∀ t ∈ last ++ [closing], t.kind ≠ .semicolon := by
  intro t ht
  rcases List.mem_append.1 ht with ht | ht
  · exact (h t ht).2.2.2
  · obtain rfl := List.mem_singleton.1 ht
    rw [hclosing]
    decide

theorem ne_nil_of_read {read left : List Token} (hrow : last ++ [closing] = read ++ left)
    (hread : ∀ t ∈ read, t.kind ≠ .rightBrace) (hclosing : closing.kind = .rightBrace) :
    left ≠ [] := by
  rintro rfl
  have hmem : closing ∈ read := by
    rw [← List.append_nil read, ← hrow]
    simp
  exact hread closing hmem hclosing

/-- The errors in such a row where going on behind the last of them runs over the closing brace: no
keyword that begins a statement stands behind the token of the error. -/
def Overruns (last : List Token) (closing : Token) (errors : List SyntaxError) : Prop :=
  ∃ read u behind told e, last ++ [closing] = read ++ u :: behind ∧
    (∀ t ∈ behind, t.kind.startsStatement = false) ∧ errors = told ++ [e] ∧ e.site = .token u

theorem Overruns.of_suffix {last' : List Token} {errors : List SyntaxError}
    (h : Overruns last' closing errors) (hsuffix : last' <:+ last) (told : List SyntaxError) :
    Overruns last closing (told ++ errors) := by
  obtain ⟨front, rfl⟩ := hsuffix
  obtain ⟨read, u, behind, told', e, hread, hbehind, rfl, hsite⟩ := h
  exact ⟨front ++ read, u, behind, told ++ told', e, by simp [hread], hbehind, by simp, hsite⟩

/-- The brace is run over, or a shorter row is left in front of it that begins with a keyword. -/
def OverrunsOrGoesOn (last : List Token) (closing : Token) (errors : List SyntaxError)
    (rest : List Token) : Prop :=
  rest = [] ∧ Overruns last closing errors ∨
    ∃ last', rest = last' ++ [closing] ∧ last' <:+ last ∧
      ∃ t ∈ last'.head?, t.kind.startsStatement = true

theorem startsStatement_of_dropStatement {tokens : List Token}
    (h : ∀ t ∈ tokens, t.kind ≠ .semicolon) :
    ∀ t ∈ (dropStatement tokens).head?, t.kind.startsStatement = true := by
  fun_induction dropStatement tokens with
  | case1 => simp
  | case2 => simp
  | case3 t next rest hstops =>
    have ht := h t List.mem_cons_self
    simpa [ht] using hstops
  | case4 t next rest _ ih => exact ih fun u hu => h u (List.mem_cons_of_mem t hu)

theorem overrunsOrGoesOn_of_dropStatement {read left rest : List Token} {told : List SyntaxError}
    {e : SyntaxError} {setting : Setting} (h : Unended last) (hclosing : closing.kind = .rightBrace)
    (hrow : last ++ [closing] = read ++ left) (hleft : left ≠ []) (hdrop : rest = dropStatement left)
    (hsite : e.site = setting.site left) :
    OverrunsOrGoesOn last closing (told ++ [e]) rest := by
  obtain ⟨u, behind, rfl⟩ := List.exists_cons_of_ne_nil hleft
  have hhead : ∀ t ∈ rest.head?, t.kind.startsStatement = true := by
    rw [hdrop]
    refine startsStatement_of_dropStatement fun t ht => h.ne_semicolon hclosing t ?_
    rw [hrow]
    exact List.mem_append_right read ht
  have hrest : rest <:+ last ++ [closing] := by
    rw [hrow, hdrop]
    exact (dropStatement_suffix _).trans (List.suffix_append read _)
  rcases List.suffix_concat_iff.1 hrest with rfl | ⟨last', rfl, hlast'⟩
  · have hbehind := ((dropStatement_eq_nil_iff u behind).1 hdrop.symm).2
    exact .inl ⟨rfl, read, u, behind, told, e, hrow, hbehind, rfl, hsite⟩
  · refine .inr ⟨last', rfl, hlast', ?_⟩
    cases last' with
    | nil =>
      have := hhead closing rfl
      rw [hclosing] at this
      contradiction
    | cons t last' => exact ⟨t, rfl, hhead t rfl⟩

namespace Stmt

open ScriptSyntax.Parser

variable {room : Nat} {setting : Setting} {read rest : List Token} {errors : List SyntaxError}
  {expression : Parser Expr} {deeper : Deeper} {s : Stmt}

/-- An expression up to the closing brace. -/
def ReadsToBrace (room : Nat) (setting : Setting) (last : List Token) (closing : Token) : Prop :=
  ∃ value told, (Expr.parser room).run setting (last ++ [closing]) = ⟨.ok value, told, [closing]⟩

theorem ReadsToBrace.of_options {setting' : Setting} (h : ReadsToBrace room setting last closing)
    (hoptions : setting'.options = setting.options) : ReadsToBrace room setting' last closing := by
  obtain ⟨value, told, h⟩ := h
  have hne : [closing] ≠ [] := List.cons_ne_nil closing []
  exact ⟨value, told, by simpa using (Expr.local_of_room room).run_append hoptions h hne []⟩

/-- Nothing behind the last semicolon, or an expression that the options let go without one. -/
def LeavesBrace (room : Nat) (setting : Setting) (body : List Token) (closing : Token) : Prop :=
  behindLastSemicolon body = [] ∨
    setting.options.strictSemicolons = false ∧
      ReadsToBrace room setting (behindLastSemicolon body) closing

theorem LeavesBrace.of_options {setting' : Setting} (h : LeavesBrace room setting body closing)
    (hoptions : setting'.options = setting.options) : LeavesBrace room setting' body closing := by
  rcases h with hnone | ⟨hlenient, hread⟩
  · exact .inl hnone
  · exact .inr ⟨by rw [hoptions, hlenient], hread.of_options hoptions⟩

/-! ## An expression without its semicolon -/

theorem not_readsToBrace_of_startsStatement {t : Token} {more : List Token}
    (ht : t.kind.startsStatement = true) : ¬ ReadsToBrace room setting (t :: more) closing := by
  rintro ⟨value, told, h⟩
  have hin : Expr.inExpression t.kind = true :=
    ((Expr.confined_of_room room).of_takes h).1 t List.mem_cons_self
  revert ht hin
  cases t.kind <;> decide

theorem run_parser_of_readsToBrace {value : Expr} {told : List SyntaxError} (hne : last ≠ [])
    (hlenient : setting.options.strictSemicolons = false) (hclosing : closing.kind = .rightBrace)
    (h : (Expr.parser room).run setting (last ++ [closing]) = ⟨.ok value, told, [closing]⟩) :
    (parser room).run setting (last ++ [closing]) =
      ⟨.ok (some (.expression value)), told ++ [⟨.token closing, .noSemicolonAfterValue⟩],
        [closing]⟩ := by
  obtain ⟨t, more, rfl⟩ := List.exists_cons_of_ne_nil hne
  have ht : Expr.inExpression t.kind = true :=
    ((Expr.confined_of_room room).of_takes h).1 t List.mem_cons_self
  have hmissing : semicolon.Takes setting [] [closing] ()
      [⟨.token closing, .noSemicolonAfterValue⟩] :=
    takes_semicolon_iff.2 (.inr ⟨by simp [hclosing], hlenient, rfl, by simp [atStatementEnd, hclosing]⟩)
  have hbare : (bareExpression (Expr.parser room)).Takes setting (t :: more) [closing]
      (.expression value) (told ++ [⟨.token closing, .noSemicolonAfterValue⟩]) :=
    takes_bareExpression_iff.2
      ⟨value, t :: more, [], told, _, rfl, (List.append_nil _).symm, rfl, h, hmissing⟩
  refine takes_resume_iff.2 (.inl ⟨_, rfl, takes_variableOrStatement_iff.2 (.inr ⟨?_, ?_⟩)⟩)
  · rintro u ⟨⟩ hkind
    rw [hkind] at ht
    contradiction
  · refine takes_statement_iff.2 (.inr (.inr (.inr ⟨?_, hbare⟩)))
    rintro u ⟨⟩
    refine ⟨?_, ?_, ?_⟩ <;> intro hkind <;> rw [hkind] at ht <;> contradiction

/-! ## Anything else -/

/-- A declaration that is stopped has taken no closing brace. -/
def innerBounds : Bounds where
  taken kind := kind ≠ .rightBrace
  told _ := True
  stopping _ := True

theorem allowDeclarations_innerBounds : AllowDeclarations innerBounds where
  taken := by simp [innerBounds]
  stopping := by simp [innerBounds]

theorem innerConfined_of_expression (h : expression.Confined Expr.bounds) :
    expression.Confined innerBounds := by
  refine h.mono (fun kind hkind => ?_) (fun _ _ => trivial) fun _ _ => trivial
  rintro rfl
  contradiction

theorem takes_bareExpression_of_unended (h : Unended last) (hne : last ≠ [])
    (hclosing : closing.kind = .rightBrace) (hrow : last ++ [closing] = read ++ rest)
    (hs : (variableOrStatement expression (statement expression deeper)).Takes setting read rest s
      errors) :
    (bareExpression expression).Takes setting read rest s errors := by
  have hsemicolon : ∀ t ∈ read, t.kind ≠ .semicolon := by
    intro t ht
    apply h.ne_semicolon hclosing
    rw [hrow]
    exact List.mem_append_left rest ht
  obtain ⟨first, more, rfl⟩ := List.exists_cons_of_ne_nil hne
  have hfirst := h first List.mem_cons_self
  have hhead {t : Token} {ts : List Token} (hread : read = t :: ts) : t = first := by
    rw [hread] at hrow
    exact (List.cons.inj hrow).1.symm
  rcases takes_variableOrStatement_iff.1 hs with ⟨keyword, ts, -, rfl, h₁⟩ | ⟨-, h₁⟩
  · rcases takes_restOfVariable_iff.1 h₁ with ⟨name, semicolon, -, hkind, -, rfl, -⟩ |
      ⟨name, equals, value, ts, semicolon, -, -, hkind, -, rfl, -⟩
    · exact absurd hkind (hsemicolon semicolon (by simp))
    · exact absurd hkind (hsemicolon semicolon (by simp))
  · rcases takes_statement_iff.1 h₁ with ⟨t, ts, hkind, hread, -⟩ | ⟨t, ts, -, rfl, h₂⟩ |
      ⟨t, ts, hkind, hread, -⟩ | ⟨-, h₂⟩
    · exact absurd hkind (hhead hread ▸ hfirst.2.2.1)
    · obtain ⟨value, ts, semicolon, -, rfl, hkind, -⟩ := takes_restOfPrint_iff.1 h₂
      exact absurd hkind (hsemicolon semicolon (by simp))
    · exact absurd hkind (hhead hread ▸ hfirst.1)
    · exact h₂

theorem bareExpression_overruns (h : Unended last) (hclosing : closing.kind = .rightBrace)
    (hnot : ¬ (setting.options.strictSemicolons = false ∧ ReadsToBrace room setting last closing))
    (hrow : last ++ [closing] = read ++ rest)
    (hs : (bareExpression (Expr.parser room)).Takes setting read rest s errors) :
    OverrunsOrGoesOn last closing errors rest := by
  have hconfined := innerConfined_of_expression (Expr.confined_of_room room)
  obtain ⟨value, ts, us, told, missing, -, rfl, rfl, hvalue, hmissing⟩ :=
    takes_bareExpression_iff.1 hs
  rw [List.append_assoc] at hrow
  have hus := ne_nil_of_read hrow (hconfined.of_takes hvalue).1 hclosing
  rcases takes_semicolon_iff.1 hmissing with ⟨t, ht, rfl, -⟩ | ⟨-, hlenient, rfl, hrest⟩
  · have hmem : t ∈ last ++ [closing] := by simp [hrow]
    exact absurd ht (h.ne_semicolon hclosing t hmem)
  split at hrest
  · -- The semicolon may be missing in front of a keyword, but what is there is not the brace.
    rename_i hend
    obtain rfl : us = [] := List.append_left_eq_self.1 hrest.symm
    rw [List.nil_append] at hrow hvalue hend
    rcases List.suffix_concat_iff.1 ⟨ts, hrow.symm⟩ with rfl | ⟨last', rfl, hlast'⟩
    · exact absurd rfl hus
    · refine .inr ⟨last', rfl, hlast', ?_⟩
      cases last' with
      | nil =>
        obtain rfl : last = ts := List.append_cancel_right hrow
        exact absurd ⟨hlenient, value, told, hvalue⟩ hnot
      | cons t last' =>
        have hbrace := (h t (hlast'.subset List.mem_cons_self)).2.1
        exact ⟨t, rfl, by simpa [atStatementEnd, hbrace] using hend⟩
  · exact overrunsOrGoesOn_of_dropStatement h hclosing hrow hus hrest rfl

theorem declaration_overruns (room : Nat) (setting : Setting) (h : Unended last) (hne : last ≠ [])
    (hclosing : closing.kind = .rightBrace)
    (hnot : ¬ (setting.options.strictSemicolons = false ∧ ReadsToBrace room setting last closing)) :
    ∃ found errors rest, (parser room).run setting (last ++ [closing]) = ⟨.ok found, errors, rest⟩ ∧
      OverrunsOrGoesOn last closing errors rest := by
  have hconfined := innerConfined_of_expression (Expr.confined_of_room room)
  obtain ⟨found, errors, rest, hrun⟩ :
      ∃ found errors rest, (parser room).run setting (last ++ [closing]) =
        ⟨.ok found, errors, rest⟩ := neverStops_resume _ setting (last ++ [closing])
  refine ⟨found, errors, rest, hrun, ?_⟩
  obtain ⟨read, hrow, htakes⟩ := takes_of_run hrun
  rcases takes_resume_iff.1 htakes with ⟨s, -, hs⟩ | ⟨told, e, left, -, rfl, hdrop, hs⟩
  · have hbare := takes_bareExpression_of_unended h hne hclosing hrow hs
    exact bareExpression_overruns h hclosing hnot hrow hbare
  · rw [← hrow] at hs
    have hflat : ∀ t ∈ (last ++ [closing]).head?, t.kind ≠ .leftBrace ∧ t.kind ≠ .ifKeyword := by
      obtain ⟨first, more, rfl⟩ := List.exists_cons_of_ne_nil hne
      have hfirst := h first List.mem_cons_self
      simpa using ⟨hfirst.1, hfirst.2.2.1⟩
    obtain ⟨⟨taken, htaken, hkinds⟩, -, -⟩ :=
      stopsConfined_variableOrStatement allowDeclarations_innerBounds hconfined hflat hs
    have hsited := has_declared_of_room (compositional_sited fun _ => True) room setting
      (last ++ [closing]) fun _ _ => trivial
    rw [hs] at hsited
    have hleft := ne_nil_of_read htaken hkinds hclosing
    exact overrunsOrGoesOn_of_dropStatement h hclosing htaken hleft hdrop (hsited.stops e rfl)

/-! ## All declarations of a block -/

theorem declarations_overrun (room : Nat) (setting : Setting) (h : Unended last) (hne : last ≠ [])
    (hclosing : closing.kind = .rightBrace)
    (hnot : ¬ (setting.options.strictSemicolons = false ∧ ReadsToBrace room setting last closing)) :
    ∃ statements errors,
      (collectUntil (· = .rightBrace) (parser room)).run setting (last ++ [closing]) =
        ⟨.ok statements, errors, []⟩ ∧ Overruns last closing errors := by
  -- A keyword that begins a statement is in no expression, so what is left in front of one is again a
  -- row that is not read up to the brace.
  induction hn : last.length using Nat.strongRecOn generalizing last with
  | _ n ih =>
  have hadvances := advances_of_room room
  obtain ⟨found, errors, rest, hrun, hrest⟩ := declaration_overruns room setting h hne hclosing hnot
  obtain ⟨first, more, rfl⟩ := List.exists_cons_of_ne_nil hne
  have hgo : decide (first.kind = .rightBrace) = false := by
    simpa using (h first List.mem_cons_self).2.1
  rcases hrest with ⟨rfl, hover⟩ | ⟨last', rfl, hlast', t, ht, hkeyword⟩
  · have hnone := run_collectUntil_nil (· = .rightBrace) (parser room) setting
    have hall := run_collectUntil_of_item hadvances hgo hrun hnone
    simp only [List.append_nil] at hall
    exact ⟨_, _, hall, hover⟩
  · have hlt : (last' ++ [closing]).length < (first :: more ++ [closing]).length :=
      hadvances.length_lt_of_run hrun
    rw [List.length_append, List.length_append, hn, Nat.add_lt_add_iff_right] at hlt
    obtain ⟨more', rfl⟩ := List.head?_eq_some_iff.1 ht
    have hnot' : ¬ ReadsToBrace room setting (t :: more') closing :=
      not_readsToBrace_of_startsStatement hkeyword
    obtain ⟨statements, later, hlater, hover⟩ :=
      ih _ hlt (h.of_suffix hlast') (List.cons_ne_nil t more') (fun hread => hnot' hread.2) rfl
    exact ⟨_, _, run_collectUntil_of_item hadvances hgo hrun hlater, hover.of_suffix hlast' errors⟩

theorem run_collectUntil_of_rightBrace (room : Nat) (setting : Setting)
    (hclosing : closing.kind = .rightBrace) :
    (collectUntil (· = .rightBrace) (parser room)).run setting [closing] = ⟨.ok [], [], [closing]⟩ :=
  run_collectUntil_of_stop (advances_of_room room) setting (by simpa using hclosing)

theorem declarations_of_readsToBrace {value : Expr} {told : List SyntaxError} (h : Unended last)
    (hne : last ≠ []) (hclosing : closing.kind = .rightBrace)
    (hlenient : setting.options.strictSemicolons = false)
    (hvalue : (Expr.parser room).run setting (last ++ [closing]) = ⟨.ok value, told, [closing]⟩) :
    (collectUntil (· = .rightBrace) (parser room)).run setting (last ++ [closing]) =
      ⟨.ok [.expression value], told ++ [⟨.token closing, .noSemicolonAfterValue⟩], [closing]⟩ := by
  have hfound := run_parser_of_readsToBrace hne hlenient hclosing hvalue
  have hstop := run_collectUntil_of_rightBrace room setting hclosing
  obtain ⟨first, more, rfl⟩ := List.exists_cons_of_ne_nil hne
  have hgo : decide (first.kind = .rightBrace) = false := by
    simpa using (h first List.mem_cons_self).2.1
  simpa using run_collectUntil_of_item (advances_of_room room) hgo hfound hstop

section block

variable (hbody : ∀ t ∈ body, t.kind ≠ .leftBrace ∧ t.kind ≠ .rightBrace ∧ t.kind ≠ .ifKeyword)
include hbody

theorem declarations_of_behindLastSemicolon (room : Nat) {statements : List Stmt}
    (h : (collectUntil (· = .rightBrace) (parser room)).run setting
      (behindLastSemicolon body ++ [closing]) = ⟨.ok statements, errors, rest⟩) :
    ∃ earlier told, (collectUntil (· = .rightBrace) (parser room)).run setting (body ++ [closing]) =
      ⟨.ok (earlier ++ statements), told ++ errors, rest⟩ := by
  obtain ⟨front, hfront, hended⟩ := exists_ended_append hbody
  have hgo : ∀ t ∈ front, decide (t.kind = .rightBrace) = false := by
    intro t ht
    have hmem : t ∈ body := by
      rw [hfront]
      exact List.mem_append_left _ ht
    simpa using (hbody t hmem).2.1
  obtain ⟨earlier, told, hearlier⟩ : ∃ earlier told,
      (collectUntil (· = .rightBrace) (parser room)).run setting front = ⟨.ok earlier, told, []⟩ :=
    exists_run_collectUntil (advances_of_room room) (neverStops_resume _) setting hgo
  have happend := declarations_append room rfl hended hgo hearlier h
  rw [← List.append_assoc, ← hfront] at happend
  exact ⟨earlier, told, happend⟩

variable (hclosing : closing.kind = .rightBrace)
include hclosing

theorem declarations_of_leavesBrace (room : Nat) (h : LeavesBrace room setting body closing) :
    ∃ statements errors, (collectUntil (· = .rightBrace) (parser room)).run setting
      (body ++ [closing]) = ⟨.ok statements, errors, [closing]⟩ := by
  by_cases hne : behindLastSemicolon body = []
  · have hstop : (collectUntil (· = .rightBrace) (parser room)).run setting
        (behindLastSemicolon body ++ [closing]) = ⟨.ok [], [], [closing]⟩ := by
      rw [hne, List.nil_append]
      exact run_collectUntil_of_rightBrace room setting hclosing
    obtain ⟨earlier, told, hrun⟩ := declarations_of_behindLastSemicolon hbody room hstop
    exact ⟨_, _, hrun⟩
  · obtain ⟨hlenient, value, told, hvalue⟩ := h.resolve_left hne
    have hunended := unended_behindLastSemicolon hbody
    have hrest := declarations_of_readsToBrace hunended hne hclosing hlenient hvalue
    obtain ⟨earlier, told, hrun⟩ := declarations_of_behindLastSemicolon hbody room hrest
    exact ⟨_, _, hrun⟩

theorem declarations_overrun_of_not_leavesBrace (room : Nat)
    (h : ¬ LeavesBrace room setting body closing) :
    ∃ statements errors, (collectUntil (· = .rightBrace) (parser room)).run setting
      (body ++ [closing]) = ⟨.ok statements, errors, []⟩ ∧
        Overruns (behindLastSemicolon body) closing errors := by
  have hne : behindLastSemicolon body ≠ [] := fun hnone => h (.inl hnone)
  obtain ⟨statements, errors, hrest, hover⟩ := declarations_overrun room setting
    (unended_behindLastSemicolon hbody) hne hclosing fun hread => h (.inr hread)
  obtain ⟨earlier, told, hrun⟩ := declarations_of_behindLastSemicolon hbody room hrest
  exact ⟨_, _, hrun, hover.of_suffix List.suffix_rfl told⟩

end block

end Stmt

end ScriptSyntax
