import ScriptSyntax.Proofs.Parser.Stmt
import ScriptSyntax.Proofs.Soundness.Expr
/-! # Progress

A declaration takes a token from every row that has one, whether it succeeds, is kept without its
semicolon, or is broken and dropped.
-/

namespace ScriptSyntax

namespace Parser

variable {α : Type}

theorem advances_resume {p : Parser α}
    (hp : ∀ ⦃setting read rest a errors⦄, p.Takes setting read rest a errors → read ≠ []) :
    p.resume.Advances := by
  intro setting t rest
  rcases hrun : p.run setting (t :: rest) with ⟨e | a, errors, left⟩
  · rw [run_resume_of_error hrun]
    have hsuffix := (suffix_of_run hrun).length_le
    cases left with
    | nil => exact Nat.zero_le _
    | cons next left =>
      have := length_dropStatement_le next left
      simp only [List.length_cons] at hsuffix
      show (dropStatement (next :: left)).length ≤ rest.length
      omega
  · rw [run_resume_of_ok hrun]
    obtain ⟨read, hread, htakes⟩ := takes_of_run hrun
    have hpos := List.length_pos_iff.2 (hp htakes)
    have hlength := congrArg List.length hread
    simp only [List.length_cons, List.length_append] at hlength ⊢
    omega

/-- A parser never stops if it makes a value of every row of tokens. -/
def NeverStops (p : Parser α) : Prop :=
  ∀ setting tokens, ∃ a errors rest, p.run setting tokens = ⟨.ok a, errors, rest⟩

theorem neverStops_resume (p : Parser α) : p.resume.NeverStops := by
  intro setting tokens
  rcases hrun : p.run setting tokens with ⟨e | a, errors, rest⟩
  · exact ⟨_, _, _, run_resume_of_error hrun⟩
  · exact ⟨_, _, _, run_resume_of_ok hrun⟩

theorem neverStops_collectUntil {stops : TokenKind → Bool} {item : Parser (Option α)}
    (hadvances : item.Advances) (hitem : item.NeverStops) :
    (collectUntil stops item).NeverStops := by
  intro setting tokens
  induction hn : tokens.length using Nat.strongRecOn generalizing tokens with
  | _ n ih =>
  cases tokens with
  | nil => exact ⟨_, _, _, run_collectUntil_nil ..⟩
  | cons t tokens =>
    cases hstop : stops t.kind with
    | true =>
      rw [run_collectUntil_cons stops item hadvances, if_pos hstop]
      exact ⟨_, _, _, rfl⟩
    | false =>
      obtain ⟨found, told, left, hfound⟩ := hitem setting (t :: tokens)
      have hlt := hadvances.length_lt_of_run hfound
      rw [hn] at hlt
      obtain ⟨values, errors, rest, hvalues⟩ := ih _ hlt left rfl
      exact ⟨_, _, _, run_collectUntil_of_item hadvances hstop hfound hvalues⟩

theorem exists_run_collectUntil {stops : TokenKind → Bool} {item : Parser (Option α)}
    (hadvances : item.Advances) (hitem : item.NeverStops) (setting : Setting) {tokens : List Token}
    (hgo : ∀ t ∈ tokens, stops t.kind = false) :
    ∃ values errors, (collectUntil stops item).run setting tokens = ⟨.ok values, errors, []⟩ := by
  obtain ⟨values, errors, rest, hrun⟩ := neverStops_collectUntil hadvances hitem setting tokens
  obtain ⟨read, rfl, htakes⟩ := takes_of_run hrun
  have hstop := (htakes.collectUntil_invariant hadvances (fun _ _ _ => True) trivial
    fun _ _ _ _ _ _ _ _ _ _ => trivial).2
  cases rest with
  | nil => exact ⟨values, errors, hrun⟩
  | cons t rest =>
    have ht := hgo t (by simp)
    rw [hstop t rfl] at ht
    contradiction

end Parser

namespace Expr

open ScriptSyntax.Parser

theorem Makes.ne_nil {p : Parser Expr} {level limit : Nat} (hp : Makes p level limit)
    {setting : Setting} {read rest : List Token} {e : Expr} {errors : List SyntaxError}
    (h : p.Takes setting read rest e errors) : read ≠ [] := by
  rintro rfl
  exact e.kept_ne_nil (List.sublist_nil.1 (hp h).kept_sublist)

end Expr

namespace Stmt

open ScriptSyntax.Parser

variable {expression : Parser Expr} {level limit : Nat}

theorem statement_ne_nil (hexpression : Expr.Makes expression level limit) {deeper : Deeper}
    {setting : Setting} {read rest : List Token} {s : Stmt} {errors : List SyntaxError}
    (h : (statement expression deeper).Takes setting read rest s errors) : read ≠ [] := by
  rcases takes_statement_iff.1 h with ⟨t, more, -, rfl, -⟩ | ⟨t, more, -, rfl, -⟩ |
    ⟨t, more, -, rfl, -⟩ | ⟨-, h⟩
  · exact List.cons_ne_nil t more
  · exact List.cons_ne_nil t more
  · exact List.cons_ne_nil t more
  · obtain ⟨value, ts, us, told, last, rfl, rfl, rfl, hvalue, -⟩ := takes_bareExpression_iff.1 h
    exact List.append_ne_nil_of_left_ne_nil (hexpression.ne_nil hvalue) us

theorem advances_declaration (hexpression : Expr.Makes expression level limit) (deeper : Deeper) :
    (declaration expression (statement expression deeper)).Advances := by
  apply advances_resume
  intro setting read rest s errors h
  rcases takes_variableOrStatement_iff.1 h with ⟨t, more, -, rfl, -⟩ | ⟨-, h⟩
  · exact List.cons_ne_nil t more
  · exact statement_ne_nil hexpression h

theorem advances_of_room (room : Nat) : (parser room).Advances :=
  advances_declaration (Expr.makes_of_room room) (Deeper.ofRoom room)

end Stmt

end ScriptSyntax
