import ScriptSyntax.Proofs.Parser.Compositional
/-! # How far a parser looks

A parser looks no further than at the next token behind what it takes if it makes the same of the
tokens that it takes in front of any others that start with that token. What is made of such parsers
is one.
-/

namespace ScriptSyntax

variable {setting setting' : Setting} {read rest rest' : List Token}

/-! ## Rows with the same next token -/

theorem Setting.site_append (h : setting'.site rest' = setting.site rest) (read : List Token) :
    setting'.site (read ++ rest') = setting.site (read ++ rest) := by
  cases read with
  | nil => exact h
  | cons t read => rfl

theorem Setting.head?_eq_of_site_eq (h : setting'.site rest' = setting.site rest) :
    rest'.head? = rest.head? := by
  cases rest <;> cases rest' <;> simp_all [site]

theorem Setting.site_eq_of_ne_nil (hne : rest ≠ []) (setting setting' : Setting)
    (more : List Token) : setting'.site (rest ++ more) = setting.site rest := by
  cases rest with
  | nil => contradiction
  | cons t rest => rfl

theorem dropStatement_local (hnext : rest'.head? = rest.head?)
    (h : dropStatement (read ++ rest) = rest) : dropStatement (read ++ rest') = rest' := by
  induction read with
  | nil =>
    cases rest with
    | nil =>
      obtain rfl : rest' = [] := by simpa using hnext
      rfl
    | cons t rest => exact absurd h (dropStatement_ne_self t rest)
  | cons t read ih =>
    cases read with
    | nil =>
      cases rest with
      | nil =>
        obtain rfl : rest' = [] := by simpa using hnext
        rfl
      | cons next rest =>
        obtain ⟨rest', rfl⟩ := List.head?_eq_some_iff.1 hnext
        simp only [List.cons_append, List.nil_append] at h ⊢
        unfold dropStatement at h ⊢
        split
        · rfl
        · rename_i hstop
          rw [if_neg hstop] at h
          exact absurd h (dropStatement_ne_self next rest)
    | cons next read =>
      simp only [List.cons_append] at h ih ⊢
      unfold dropStatement at h ⊢
      split
      · rename_i hstop
        rw [if_pos hstop] at h
        have := congrArg List.length h
        simp only [List.length_cons, List.length_append] at this
        omega
      · rename_i hstop
        rw [if_neg hstop] at h
        exact ih h

namespace Parser

variable {α β : Type}

/-- What a parser makes of the tokens that it takes depends on the next token behind them and on no
other, and at the end of the input on where that is. -/
def Local (p : Parser α) : Prop :=
  ∀ ⦃setting setting' read rest rest' result errors⦄, setting'.options = setting.options →
    setting'.site rest' = setting.site rest →
    p.run setting (read ++ rest) = ⟨result, errors, rest⟩ →
    p.run setting' (read ++ rest') = ⟨result, errors, rest'⟩

theorem Local.run_append {p : Parser α} (hp : p.Local) {tokens : List Token}
    {result : Except SyntaxError α} {errors : List SyntaxError}
    (hoptions : setting'.options = setting.options)
    (h : p.run setting tokens = ⟨result, errors, rest⟩) (hne : rest ≠ []) (more : List Token) :
    p.run setting' (tokens ++ more) = ⟨result, errors, rest ++ more⟩ := by
  obtain ⟨read, rfl⟩ := suffix_of_run h
  rw [List.append_assoc]
  exact hp hoptions (Setting.site_eq_of_ne_nil hne setting setting' more) h

/-! ## Single steps -/

theorem local_pure (a : α) : (pure a : Parser α).Local := by
  intro setting setting' read rest rest' result errors _ _ h
  simp only [run_pure, Outcome.mk.injEq, List.append_left_eq_self] at h
  obtain ⟨rfl, rfl, rfl⟩ := h
  rfl

theorem local_fail (cause : SyntaxCause) : (fail cause : Parser α).Local := by
  intro setting setting' read rest rest' result errors _ hsite h
  simp only [run_fail, Outcome.mk.injEq, List.append_left_eq_self] at h
  obtain ⟨rfl, rfl, rfl⟩ := h
  rw [List.nil_append, List.nil_append, run_fail, hsite]

theorem local_report (site : Site) (cause : SyntaxCause) : (report site cause).Local := by
  intro setting setting' read rest rest' result errors _ _ h
  simp only [run_report, Outcome.mk.injEq, List.append_left_eq_self] at h
  obtain ⟨rfl, rfl, rfl⟩ := h
  rfl

theorem local_reportNext (cause : SyntaxCause) : (reportNext cause).Local := by
  intro setting setting' read rest rest' result errors _ hsite h
  simp only [run_reportNext, Outcome.mk.injEq, List.append_left_eq_self] at h
  obtain ⟨rfl, rfl, rfl⟩ := h
  rw [List.nil_append, List.nil_append, run_reportNext, hsite]

theorem local_options : options.Local := by
  intro setting setting' read rest rest' result errors hoptions _ h
  simp only [run_options, Outcome.mk.injEq, List.append_left_eq_self] at h
  obtain ⟨rfl, rfl, rfl⟩ := h
  rw [List.nil_append, run_options, hoptions]

theorem local_look {next : Option TokenKind → Parser α} (h : ∀ kind, (next kind).Local) :
    (look next).Local := by
  intro setting setting' read rest rest' result errors hoptions hsite hrun
  have hnext := Setting.head?_eq_of_site_eq (Setting.site_append hsite read)
  unfold look at hrun ⊢
  dsimp only at hrun ⊢
  rw [hnext]
  exact h _ hoptions hsite hrun

theorem local_onNext {choose : TokenKind → Option (Token → Parser α)} {otherwise : Parser α}
    (hchoose : ∀ kind p, choose kind = some p → ∀ t, (p t).Local) (hotherwise : otherwise.Local) :
    (onNext choose otherwise).Local := by
  intro setting setting' read rest rest' result errors hoptions hsite h
  have hnext := Setting.head?_eq_of_site_eq (Setting.site_append hsite read)
  rcases htokens : read ++ rest with _ | ⟨t, tokens⟩
  · obtain ⟨rfl, rfl⟩ := List.append_eq_nil_iff.1 htokens
    obtain rfl : rest' = [] := by simpa using hnext
    exact @hotherwise _ _ [] _ _ _ _ hoptions hsite h
  rcases hkind : choose t.kind with _ | p
  · rw [htokens, run_onNext_of_eq_none hkind, ← htokens] at h
    have := hotherwise hoptions hsite h
    rcases htokens' : read ++ rest' with _ | ⟨t', tokens'⟩
    · simp [htokens, htokens'] at hnext
    · obtain rfl : t' = t := by simpa [htokens, htokens'] using hnext
      rw [run_onNext_of_eq_none hkind, ← htokens', this]
  · rw [htokens, run_onNext_of_eq_some hkind] at h
    have hsuffix := (suffix_of_run h).length_le
    cases read with
    | nil =>
      rw [List.nil_append] at htokens
      rw [htokens, List.length_cons] at hsuffix
      omega
    | cons t' read =>
      obtain ⟨rfl, rfl⟩ := List.cons.inj htokens
      rw [List.cons_append, run_onNext_of_eq_some hkind]
      exact hchoose _ _ hkind _ hoptions hsite h

/-! ## One parser behind another -/

theorem Local.bind {p : Parser α} {f : α → Parser β} (hp : p.Local) (hf : ∀ a, (f a).Local) :
    (p >>= f).Local := by
  intro setting setting' read rest rest' result errors hoptions hsite h
  rw [run_bind] at h ⊢
  rcases hrun : p.run setting (read ++ rest) with ⟨e | a, earlier, mid⟩
  · rw [hrun] at h
    cases h
    rw [hp hoptions hsite hrun]
    rfl
  · rw [hrun, Outcome.andThen_ok] at h
    rcases hnext : (f a).run setting mid with ⟨result', later, rest''⟩
    rw [hnext] at h
    cases h
    obtain ⟨first, hfirst⟩ := suffix_of_run hrun
    obtain ⟨second, rfl⟩ := suffix_of_run hnext
    obtain rfl : first ++ second = read := by
      rw [← List.append_assoc] at hfirst
      exact List.append_cancel_right hfirst
    rw [List.append_assoc] at hrun ⊢
    rw [hp hoptions (Setting.site_append hsite second) hrun, Outcome.andThen_ok,
      hf a hoptions hsite hnext]
    rfl

theorem Local.of_limit {p : Parser α} (h : ∀ n, ∃ q : Parser α, q.Local ∧
    ∀ setting tokens, tokens.length ≤ n → q.run setting tokens = p.run setting tokens) :
    p.Local := by
  intro setting setting' read rest rest' result errors hoptions hsite hrun
  obtain ⟨q, hq, heq⟩ := h ((read ++ rest).length + (read ++ rest').length)
  rw [← heq setting _ (by omega)] at hrun
  rw [← heq setting' _ (by omega)]
  exact hq hoptions hsite hrun

/-! ## Going on behind an error -/

theorem Local.resume {p : Parser α} (hp : p.Local) : p.resume.Local := by
  intro setting setting' read rest rest' result errors hoptions hsite h
  rcases hrun : p.run setting (read ++ rest) with ⟨e | a, told, left⟩
  · rw [run_resume_of_error hrun] at h
    simp only [Outcome.mk.injEq] at h
    obtain ⟨rfl, rfl, hrest⟩ := h
    obtain ⟨front, hfront⟩ := suffix_of_run hrun
    obtain ⟨dropped, rfl⟩ : rest <:+ left := hrest ▸ dropStatement_suffix left
    obtain rfl : front ++ dropped = read := by
      rw [← List.append_assoc] at hfront
      exact List.append_cancel_right hfront
    rw [List.append_assoc] at hrun ⊢
    rw [run_resume_of_error (hp hoptions (Setting.site_append hsite dropped) hrun),
      dropStatement_local (Setting.head?_eq_of_site_eq hsite) hrest]
  · rw [run_resume_of_ok hrun] at h
    cases h
    exact run_resume_of_ok (hp hoptions hsite hrun)

theorem local_finishStatement : finishStatement.Local := by
  intro setting setting' read rest rest' result errors _ hsite h
  have hnext := Setting.head?_eq_of_site_eq hsite
  have hend : atStatementEnd (read ++ rest') = atStatementEnd (read ++ rest) := by
    cases read with
    | nil => cases rest <;> cases rest' <;> simp_all [atStatementEnd]
    | cons t read => rfl
  simp only [finishStatement, Outcome.mk.injEq] at h ⊢
  obtain ⟨rfl, rfl, hrest⟩ := h
  refine ⟨rfl, rfl, ?_⟩
  rw [hend]
  split
  · rename_i hstop
    rw [if_pos hstop] at hrest
    obtain rfl : read = [] := List.append_left_eq_self.1 hrest
    rfl
  · rename_i hstop
    rw [if_neg hstop] at hrest
    exact dropStatement_local hnext hrest

theorem compositional_local : Compositional (fun _ => True) fun _ p => p.Local where
  pure := local_pure
  fail := local_fail
  report t _ := local_report (.token t)
  reportNext := local_reportNext
  look := local_look
  onNext h := local_onNext fun kind p hp t => h kind p hp t trivial
  bind := Local.bind
  limit := Local.of_limit

end Parser

end ScriptSyntax
