import ScriptSyntax.Parser.Loop
import ScriptSyntax.Parser.Recovery
/-! # What a parser takes

A parser takes a row of tokens in front of a rest if it succeeds on the two and leaves the rest. What
a parser made of others takes follows from what they take.
-/

namespace ScriptSyntax.Parser

variable {α β : Type} {setting : Setting} {read rest : List Token} {errors : List SyntaxError}

/-- On the tokens of `read` in front of `rest`, `p` succeeds with `a`, tells of `errors` and leaves
`rest`. -/
def Takes (p : Parser α) (setting : Setting) (read rest : List Token) (a : α)
    (errors : List SyntaxError) : Prop :=
  p.run setting (read ++ rest) = ⟨.ok a, errors, rest⟩

theorem takes_of_run {p : Parser α} {tokens : List Token} {a : α}
    (h : p.run setting tokens = ⟨.ok a, errors, rest⟩) :
    ∃ read, tokens = read ++ rest ∧ p.Takes setting read rest a errors := by
  obtain ⟨read, rfl⟩ := suffix_of_run h
  exact ⟨read, rfl, h⟩

theorem takes_to_end_iff {p : Parser α} {tokens : List Token} {a : α} :
    p.Takes setting tokens [] a errors ↔ p.run setting tokens = ⟨.ok a, errors, []⟩ := by
  rw [Takes, List.append_nil]

/-! ## Single steps -/

theorem takes_pure_iff {a b : α} :
    (pure a : Parser α).Takes setting read rest b errors ↔ read = [] ∧ b = a ∧ errors = [] := by
  simp only [Takes, run_pure, Outcome.mk.injEq, Except.ok.injEq, List.append_left_eq_self]
  constructor
  · rintro ⟨rfl, rfl, rfl⟩
    exact ⟨rfl, rfl, rfl⟩
  · rintro ⟨rfl, rfl, rfl⟩
    exact ⟨rfl, rfl, rfl⟩

theorem not_takes_fail {cause : SyntaxCause} {a : α} :
    ¬ (fail cause : Parser α).Takes setting read rest a errors := by
  simp [Takes]

theorem takes_report_iff {site : Site} {cause : SyntaxCause} {u : Unit} :
    (report site cause).Takes setting read rest u errors ↔ read = [] ∧ errors = [⟨site, cause⟩] := by
  simp only [Takes, run_report, Outcome.mk.injEq, List.append_left_eq_self, true_and]
  exact ⟨fun h => ⟨h.2, h.1.symm⟩, fun h => ⟨h.2.symm, h.1⟩⟩

theorem takes_reportNext_iff {cause : SyntaxCause} {u : Unit} :
    (reportNext cause).Takes setting read rest u errors ↔
      read = [] ∧ errors = [⟨setting.site rest, cause⟩] := by
  simp only [Takes, run_reportNext, Outcome.mk.injEq, List.append_left_eq_self, true_and]
  constructor
  · rintro ⟨rfl, rfl⟩
    exact ⟨rfl, rfl⟩
  · rintro ⟨rfl, rfl⟩
    exact ⟨rfl, rfl⟩

theorem takes_options_iff {o : Options} :
    options.Takes setting read rest o errors ↔
      read = [] ∧ o = setting.options ∧ errors = [] := by
  simp only [Takes, run_options, Outcome.mk.injEq, Except.ok.injEq, List.append_left_eq_self]
  exact ⟨fun h => ⟨h.2.2, h.1.symm, h.2.1.symm⟩, fun h => ⟨h.2.1.symm, h.2.2.symm, h.1⟩⟩

theorem takes_nextIs_iff {kind : TokenKind} {b : Bool} :
    (nextIs kind).Takes setting read rest b errors ↔
      read = [] ∧ b = rest.head?.any (·.kind = kind) ∧ errors = [] := by
  simp only [Takes, run_nextIs, Outcome.mk.injEq, Except.ok.injEq, List.append_left_eq_self]
  constructor
  · rintro ⟨rfl, rfl, rfl⟩
    exact ⟨rfl, rfl, rfl⟩
  · rintro ⟨rfl, rfl, rfl⟩
    exact ⟨rfl, rfl, rfl⟩

theorem takes_onNext_iff {choose : TokenKind → Option (Token → Parser α)} {otherwise : Parser α}
    {a : α} :
    (onNext choose otherwise).Takes setting read rest a errors ↔
      (∃ t p more, choose t.kind = some p ∧ read = t :: more ∧
        (p t).Takes setting more rest a errors) ∨
      (∀ t ∈ (read ++ rest).head?, choose t.kind = none) ∧
        otherwise.Takes setting read rest a errors := by
  unfold Takes
  rcases htokens : read ++ rest with _ | ⟨t, tokens⟩
  · obtain ⟨rfl, rfl⟩ := List.append_eq_nil_iff.1 htokens
    simp
  rcases hchoose : choose t.kind with _ | p
  · rw [run_onNext_of_eq_none hchoose]
    constructor
    · intro h
      exact .inr ⟨by simpa using hchoose, h⟩
    · rintro (⟨t', p, more, hp, rfl, -⟩ | ⟨-, h⟩)
      · obtain ⟨rfl, -⟩ := List.cons.inj htokens
        simp [hchoose] at hp
      · exact h
  · rw [run_onNext_of_eq_some hchoose]
    constructor
    · intro h
      obtain ⟨more, rfl, hmore⟩ := takes_of_run h
      have : read = t :: more := List.append_cancel_right (htokens.trans (List.cons_append ..).symm)
      exact .inl ⟨t, p, more, hchoose, this, hmore⟩
    · rintro (⟨t', p', more, hp, rfl, h⟩ | ⟨h, -⟩)
      · obtain ⟨rfl, rfl⟩ := List.cons.inj htokens
        rw [hchoose] at hp
        obtain rfl := Option.some.inj hp
        exact h
      · simp [hchoose] at h

theorem takes_onNext_kind_iff {choose : TokenKind → Option (Token → Parser α)}
    {otherwise : Parser α} {kind : TokenKind} {p : Token → Parser α} {a : α}
    (hkind : choose kind = some p) (hothers : ∀ k, k ≠ kind → choose k = none) :
    (onNext choose otherwise).Takes setting read rest a errors ↔
      (∃ t more, t.kind = kind ∧ read = t :: more ∧ (p t).Takes setting more rest a errors) ∨
      (∀ t ∈ (read ++ rest).head?, t.kind ≠ kind) ∧ otherwise.Takes setting read rest a errors := by
  rw [takes_onNext_iff]
  constructor
  · rintro (⟨t, q, more, hq, rfl, h⟩ | ⟨hnext, h⟩)
    · by_cases ht : t.kind = kind
      · rw [ht, hkind] at hq
        obtain rfl := Option.some.inj hq
        exact .inl ⟨t, more, ht, rfl, h⟩
      · rw [hothers _ ht] at hq
        contradiction
    · refine .inr ⟨fun t ht heq => ?_, h⟩
      have := hnext t ht
      rw [heq, hkind] at this
      contradiction
  · rintro (⟨t, more, ht, rfl, h⟩ | ⟨hnext, h⟩)
    · exact .inl ⟨t, p, more, by rw [ht, hkind], rfl, h⟩
    · exact .inr ⟨fun t ht => hothers _ (hnext t ht), h⟩

theorem takes_expect_iff {kind : TokenKind} {cause : SyntaxCause} {t : Token} :
    (expect kind cause).Takes setting read rest t errors ↔
      t.kind = kind ∧ read = [t] ∧ errors = [] := by
  unfold expect
  rw [takes_onNext_kind_iff (if_pos rfl) (fun k hk => if_neg hk)]
  constructor
  · rintro (⟨t', more, hkind, rfl, h⟩ | ⟨-, h⟩)
    · obtain ⟨rfl, rfl, rfl⟩ := takes_pure_iff.1 h
      exact ⟨hkind, rfl, rfl⟩
    · exact absurd h not_takes_fail
  · rintro ⟨hkind, rfl, rfl⟩
    exact .inl ⟨t, [], hkind, rfl, takes_pure_iff.2 ⟨rfl, rfl, rfl⟩⟩

/-! ## One parser behind another -/

theorem takes_bind_iff {p : Parser α} {f : α → Parser β} {b : β} :
    (p >>= f).Takes setting read rest b errors ↔
      ∃ first second a earlier later, read = first ++ second ∧ errors = earlier ++ later ∧
        p.Takes setting first (second ++ rest) a earlier ∧
        (f a).Takes setting second rest b later := by
  constructor
  · intro h
    unfold Takes at h
    rw [run_bind] at h
    rcases hp : p.run setting (read ++ rest) with ⟨_ | a, earlier, mid⟩
    · simp [hp] at h
    · rw [hp, Outcome.andThen_ok] at h
      rcases hf : (f a).run setting mid with ⟨result, later, rest'⟩
      rw [hf] at h
      simp only [Outcome.behind, Outcome.mk.injEq] at h
      obtain ⟨rfl, rfl, rfl⟩ := h
      obtain ⟨first, htokens, hfirst⟩ := takes_of_run hp
      obtain ⟨second, rfl, hsecond⟩ := takes_of_run hf
      rw [← List.append_assoc] at htokens
      exact ⟨first, second, a, earlier, later, List.append_cancel_right htokens, rfl, hfirst,
        hsecond⟩
  · rintro ⟨first, second, a, earlier, later, rfl, rfl, hp, hf⟩
    unfold Takes at *
    rw [run_bind, List.append_assoc, hp, Outcome.andThen_ok, hf]
    rfl

theorem Takes.bind {p : Parser α} {f : α → Parser β} {first second : List Token} {a : α} {b : β}
    {earlier later : List SyntaxError} (hp : p.Takes setting first (second ++ rest) a earlier)
    (hf : (f a).Takes setting second rest b later) :
    (p >>= f).Takes setting (first ++ second) rest b (earlier ++ later) :=
  takes_bind_iff.2 ⟨first, second, a, earlier, later, rfl, rfl, hp, hf⟩

theorem takes_bind_pure_iff {p : Parser α} {f : α → β} {b : β} :
    (p >>= fun a => pure (f a)).Takes setting read rest b errors ↔
      ∃ a, b = f a ∧ p.Takes setting read rest a errors := by
  rw [takes_bind_iff]
  constructor
  · rintro ⟨first, second, a, earlier, later, rfl, rfl, hp, h⟩
    obtain ⟨rfl, rfl, rfl⟩ := takes_pure_iff.1 h
    exact ⟨a, rfl, by simpa using hp⟩
  · rintro ⟨a, rfl, hp⟩
    exact ⟨read, [], a, errors, [], by simp, by simp, hp, takes_pure_iff.2 ⟨rfl, rfl, rfl⟩⟩

theorem takes_expect_bind_iff {kind : TokenKind} {cause : SyntaxCause} {f : Token → Parser β}
    {b : β} :
    (expect kind cause >>= f).Takes setting read rest b errors ↔
      ∃ t more, t.kind = kind ∧ read = t :: more ∧ (f t).Takes setting more rest b errors := by
  rw [takes_bind_iff]
  constructor
  · rintro ⟨first, more, t, earlier, later, rfl, rfl, ht, h⟩
    obtain ⟨hkind, rfl, rfl⟩ := takes_expect_iff.1 ht
    exact ⟨t, more, hkind, rfl, h⟩
  · rintro ⟨t, more, hkind, rfl, h⟩
    exact ⟨[t], more, t, [], errors, rfl, rfl, takes_expect_iff.2 ⟨hkind, rfl, rfl⟩, h⟩

/-! ## Loops -/

theorem takes_foldWhile_iff {accepts : TokenKind → Bool} {step : β → Token → Parser β}
    {init value : β} :
    (foldWhile accepts step init).Takes setting read rest value errors ↔
      ((∀ t ∈ rest.head?, accepts t.kind = false) ∧ read = [] ∧ value = init ∧ errors = []) ∨
      ∃ t more, accepts t.kind = true ∧ read = t :: more ∧
        (step init t >>= foldWhile accepts step).Takes setting more rest value errors := by
  unfold Takes
  rcases htokens : read ++ rest with _ | ⟨t, tokens⟩
  · obtain ⟨rfl, rfl⟩ := List.append_eq_nil_iff.1 htokens
    rw [run_foldWhile_nil]
    simp only [Outcome.mk.injEq, Except.ok.injEq, and_true]
    constructor
    · rintro ⟨rfl, rfl⟩
      exact .inl (by simp)
    · rintro (⟨-, -, rfl, rfl⟩ | ⟨_, _, _, h, _⟩)
      · exact ⟨rfl, rfl⟩
      · contradiction
  rw [run_foldWhile_cons]
  split
  · rename_i haccepts
    constructor
    · intro h
      obtain ⟨more, rfl, hmore⟩ := takes_of_run h
      have : read = t :: more := List.append_cancel_right (htokens.trans (List.cons_append ..).symm)
      exact .inr ⟨t, more, haccepts, this, hmore⟩
    · rintro (⟨h, rfl, -, -⟩ | ⟨t', more, -, rfl, h⟩)
      · rw [List.nil_append] at htokens
        simp [htokens, haccepts] at h
      · obtain ⟨rfl, rfl⟩ := List.cons.inj htokens
        exact h
  · rename_i haccepts
    simp only [Outcome.mk.injEq, Except.ok.injEq]
    constructor
    · rintro ⟨rfl, rfl, rfl⟩
      have : read = [] := List.append_left_eq_self.1 htokens
      exact .inl ⟨by simpa using haccepts, this, rfl, rfl⟩
    · rintro (⟨-, rfl, rfl, rfl⟩ | ⟨t', more, h, rfl, -⟩)
      · exact ⟨rfl, rfl, htokens.symm⟩
      · obtain ⟨rfl, -⟩ := List.cons.inj htokens
        exact absurd h haccepts

/-- What holds of a value and of what was read and told for it up to here, and is kept by each
round, holds at the end of the loop, in front of a token that is not accepted. -/
theorem Takes.foldWhile_invariant {accepts : TokenKind → Bool} {step : β → Token → Parser β}
    {init value : β} (Inv : β → List Token → List SyntaxError → Prop)
    {before : List Token} {earlier : List SyntaxError}
    (h : (foldWhile accepts step init).Takes setting read rest value errors)
    (hinit : Inv init before earlier)
    (hstep : ∀ v t v' before earlier read rest errors, accepts t.kind = true →
      Inv v before earlier → (step v t).Takes setting read rest v' errors →
      Inv v' (before ++ t :: read) (earlier ++ errors)) :
    Inv value (before ++ read) (earlier ++ errors) ∧ ∀ t ∈ rest.head?, accepts t.kind = false := by
  induction hn : read.length using Nat.strongRecOn
    generalizing init read before earlier errors with
  | _ n ih =>
  rcases takes_foldWhile_iff.1 h with ⟨hend, rfl, rfl, rfl⟩ | ⟨t, more, ht, rfl, hmore⟩
  · exact ⟨by simpa using hinit, hend⟩
  · obtain ⟨first, second, v, es, es', rfl, rfl, hround, hloop⟩ := takes_bind_iff.1 hmore
    have hlt : second.length < n := by
      rw [← hn]
      simp only [List.length_cons, List.length_append]
      omega
    have := ih _ hlt hloop (hstep _ _ _ _ _ _ _ _ ht hinit hround) rfl
    simpa using this

theorem Advances.ne_nil_of_takes {p : Parser α} {a : α} (hp : p.Advances)
    (h : p.Takes setting read rest a errors) (hne : read ++ rest ≠ []) : read ≠ [] := by
  rintro rfl
  obtain ⟨t, more, rfl⟩ := List.exists_cons_of_ne_nil hne
  have hlength := hp.length_lt_of_run h
  simp at hlength

theorem takes_collectUntil_iff {stops : TokenKind → Bool} {item : Parser (Option α)}
    (hitem : item.Advances) {values : List α} :
    (collectUntil stops item).Takes setting read rest values errors ↔
      ((∀ t ∈ rest.head?, stops t.kind = true) ∧ read = [] ∧ values = [] ∧ errors = []) ∨
      ∃ t more, read ++ rest = t :: more ∧ stops t.kind = false ∧
        (item >>= fun found => collectUntil stops item >>= fun more =>
          pure (found.toList ++ more)).Takes setting read rest values errors := by
  unfold Takes
  rcases htokens : read ++ rest with _ | ⟨t, tokens⟩
  · obtain ⟨rfl, rfl⟩ := List.append_eq_nil_iff.1 htokens
    rw [run_collectUntil_nil]
    simp only [Outcome.mk.injEq, Except.ok.injEq, and_true]
    constructor
    · rintro ⟨rfl, rfl⟩
      exact .inl (by simp)
    · rintro (⟨-, -, rfl, rfl⟩ | ⟨_, _, h, _, _⟩)
      · exact ⟨rfl, rfl⟩
      · contradiction
  rw [run_collectUntil_cons stops item hitem]
  split
  · rename_i hstops
    simp only [Outcome.mk.injEq, Except.ok.injEq]
    constructor
    · rintro ⟨rfl, rfl, rfl⟩
      have : read = [] := List.append_left_eq_self.1 htokens
      exact .inl ⟨by simpa using hstops, this, rfl, rfl⟩
    · rintro (⟨-, rfl, rfl, rfl⟩ | ⟨t', more, h, hgo, -⟩)
      · exact ⟨rfl, rfl, htokens.symm⟩
      · obtain ⟨rfl, -⟩ := List.cons.inj h
        simp [hstops] at hgo
  · rename_i hstops
    constructor
    · intro h
      exact .inr ⟨t, tokens, rfl, by simpa using hstops, h⟩
    · rintro (⟨h, rfl, -, -⟩ | ⟨-, -, -, -, h⟩)
      · rw [List.nil_append] at htokens
        rw [htokens] at h
        exact absurd (h t rfl) hstops
      · exact h

/-- What holds of the values collected and of what was read and told for them up to here, and is
kept by each item, which takes a token, holds at the end, in front of a token to stop at. -/
theorem Takes.collectUntil_invariant {stops : TokenKind → Bool} {item : Parser (Option α)}
    (hitem : item.Advances) {values : List α}
    (Inv : List α → List Token → List SyntaxError → Prop)
    (h : (collectUntil stops item).Takes setting read rest values errors)
    (hend : Inv [] [] [])
    (hstep : ∀ found first earlier rest values later errors, first ≠ [] →
      item.Takes setting first rest found earlier → Inv values later errors →
      Inv (found.toList ++ values) (first ++ later) (earlier ++ errors)) :
    Inv values read errors ∧ ∀ t ∈ rest.head?, stops t.kind = true := by
  induction hn : read.length using Nat.strongRecOn generalizing read values errors with
  | _ n ih =>
  rcases (takes_collectUntil_iff hitem).1 h with ⟨hstop, rfl, rfl, rfl⟩ | ⟨t, more, htokens, -, hgo⟩
  · exact ⟨hend, hstop⟩
  · obtain ⟨first, later, found, es, es', rfl, rfl, hfound, hrest⟩ := takes_bind_iff.1 hgo
    obtain ⟨others, last, values, es₁, es₂, rfl, rfl, hothers, hpure⟩ := takes_bind_iff.1 hrest
    obtain ⟨rfl, rfl, rfl⟩ := takes_pure_iff.1 hpure
    simp only [List.nil_append, List.append_nil] at *
    have hne := hitem.ne_nil_of_takes hfound (by simp [← List.append_assoc, htokens])
    have hpos := List.length_pos_iff.2 hne
    have hlt : others.length < n := by
      rw [← hn, List.length_append]
      omega
    obtain ⟨hinv, hstop⟩ := ih _ hlt hothers rfl
    exact ⟨hstep _ _ _ _ _ _ _ hne hfound hinv, hstop⟩

end ScriptSyntax.Parser
