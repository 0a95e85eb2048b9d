import ScriptSyntax.Parser.Loop
/-! # What a parser does not do

Bounds on a parser: of which kinds the tokens are that it takes, which errors it tells of, and which
stop it. They hold of every outcome, also where the parser is stopped.
-/

namespace ScriptSyntax

variable {α β : Type}

/-- What a parser may do. -/
structure Bounds where
  /-- The kinds of the tokens that it may take. -/
  taken : TokenKind → Prop
  /-- The errors that it may tell of without being stopped. -/
  told : SyntaxCause → Prop
  /-- The errors that may stop it. -/
  stopping : SyntaxCause → Prop

variable {bounds : Bounds} {setting : Setting} {tokens : List Token}

/-- An outcome of reading some tokens that keeps to the bounds. -/
structure Outcome.Confined (o : Outcome α) (bounds : Bounds) (tokens : List Token) : Prop where
  takes : ∃ read, tokens = read ++ o.rest ∧ ∀ t ∈ read, bounds.taken t.kind
  tells : ∀ e ∈ o.errors, bounds.told e.cause
  stops : ∀ e, o.result = .error e → bounds.stopping e.cause

theorem Outcome.Confined.andThen {o : Outcome α} {next : α → List Token → Outcome β}
    (ho : o.Confined bounds tokens)
    (hnext : ∀ a, o.result = .ok a → (next a o.rest).Confined bounds o.rest) :
    (o.andThen next).Confined bounds tokens := by
  rcases o with ⟨e | a, errors, rest⟩
  · exact ⟨ho.takes, ho.tells, fun e he => ho.stops e (by simpa using he)⟩
  · obtain ⟨⟨read, rfl, hread⟩, htells, -⟩ := ho
    obtain ⟨⟨read', hrest, hread'⟩, htells', hstops'⟩ := hnext a rfl
    refine ⟨⟨read ++ read', ?_, ?_⟩, ?_, hstops'⟩
    · rw [List.append_assoc]
      exact congrArg (read ++ ·) hrest
    · intro t ht
      rcases List.mem_append.1 ht with ht | ht
      · exact hread t ht
      · exact hread' t ht
    · intro e he
      rcases List.mem_append.1 he with he | he
      · exact htells e he
      · exact htells' e he

theorem Outcome.Confined.cons {o : Outcome α} {t : Token} (h : o.Confined bounds tokens)
    (ht : bounds.taken t.kind) : o.Confined bounds (t :: tokens) := by
  obtain ⟨⟨read, rfl, hread⟩, htells, hstops⟩ := h
  exact ⟨⟨t :: read, rfl, by simpa using ⟨ht, hread⟩⟩, htells, hstops⟩

namespace Parser

/-- A parser that keeps to the bounds on every row of tokens. -/
def Confined (p : Parser α) (bounds : Bounds) : Prop :=
  ∀ setting tokens, (p.run setting tokens).Confined bounds tokens

/-! ## Single steps -/

theorem confined_pure (a : α) : (pure a : Parser α).Confined bounds :=
  fun _ _ => ⟨⟨[], rfl, by simp⟩, by simp, by simp⟩

theorem confined_fail {cause : SyntaxCause} (h : bounds.stopping cause) :
    (fail cause : Parser α).Confined bounds :=
  fun _ _ => ⟨⟨[], rfl, by simp⟩, by simp, by simpa using h⟩

theorem confined_report {cause : SyntaxCause} (h : bounds.told cause) (site : Site) :
    (report site cause).Confined bounds :=
  fun _ _ => ⟨⟨[], rfl, by simp⟩, by simpa using h, by simp⟩

theorem confined_reportNext {cause : SyntaxCause} (h : bounds.told cause) :
    (reportNext cause).Confined bounds :=
  fun _ _ => ⟨⟨[], rfl, by simp⟩, by simpa using h, by simp⟩

theorem confined_nextIs (kind : TokenKind) : (nextIs kind).Confined bounds :=
  fun _ _ => ⟨⟨[], rfl, by simp⟩, by simp, by simp⟩

theorem confined_onNext {choose : TokenKind → Option (Token → Parser α)} {otherwise : Parser α}
    (hchoose : ∀ kind p, choose kind = some p → bounds.taken kind ∧ ∀ t, (p t).Confined bounds)
    (hotherwise : otherwise.Confined bounds) : (onNext choose otherwise).Confined bounds := by
  intro setting tokens
  cases tokens with
  | nil => exact hotherwise setting []
  | cons t tokens =>
    rcases hkind : choose t.kind with _ | p
    · rw [run_onNext_of_eq_none hkind]
      exact hotherwise setting (t :: tokens)
    · rw [run_onNext_of_eq_some hkind]
      obtain ⟨ht, hp⟩ := hchoose _ _ hkind
      exact (hp t setting tokens).cons ht

theorem confined_expect {kind : TokenKind} {cause : SyntaxCause} (hkind : bounds.taken kind)
    (hcause : bounds.stopping cause) : (expect kind cause).Confined bounds := by
  refine confined_onNext (fun k p hp => ?_) (confined_fail hcause)
  split at hp
  · rename_i hk
    cases hp
    exact ⟨hk ▸ hkind, confined_pure⟩
  · contradiction

theorem Confined.bind {p : Parser α} {f : α → Parser β} (hp : p.Confined bounds)
    (hf : ∀ a, (f a).Confined bounds) : (p >>= f).Confined bounds :=
  fun setting tokens => (hp setting tokens).andThen fun a _ => hf a setting _

/-! ## Loops -/

theorem Confined.foldWhile {accepts : TokenKind → Bool} {step : β → Token → Parser β}
    (haccepts : ∀ kind, accepts kind = true → bounds.taken kind)
    (hstep : ∀ value t, (step value t).Confined bounds) (init : β) :
    (foldWhile accepts step init).Confined bounds := by
  intro setting tokens
  induction hn : tokens.length using Nat.strongRecOn generalizing tokens init with
  | _ n ih =>
  cases tokens with
  | nil => exact ⟨⟨[], rfl, by simp⟩, by simp, by simp⟩
  | cons t tokens =>
    rw [run_foldWhile_cons]
    split
    · rename_i ht
      refine Outcome.Confined.cons ?_ (haccepts _ ht)
      refine (hstep init t setting tokens).andThen fun value _ => ih _ ?_ value _ rfl
      rw [← hn]
      exact Nat.lt_succ_of_le ((step init t).rest_suffix setting tokens).length_le
    · exact ⟨⟨[], rfl, by simp⟩, by simp, by simp⟩

/-! ## Where a parser is stopped -/

/-- A parser that keeps to the bounds on every row of tokens that stops it. -/
def StopsConfined (p : Parser α) (bounds : Bounds) : Prop :=
  ∀ setting tokens e, (p.run setting tokens).result = .error e →
    (p.run setting tokens).Confined bounds tokens

theorem Confined.stopsConfined_bind {p : Parser α} {f : α → Parser β} (hp : p.Confined bounds)
    (hf : ∀ a, (f a).StopsConfined bounds) : (p >>= f).StopsConfined bounds := by
  intro setting tokens e he
  rw [run_bind] at he ⊢
  refine (hp setting tokens).andThen fun a ha => ?_
  rcases hrun : p.run setting tokens with ⟨result, errors, rest⟩
  rw [hrun] at he ha
  cases ha
  exact hf a setting rest e he

theorem stopsConfined_expect_bind_pure {cause : SyntaxCause} (h : bounds.stopping cause)
    (kind : TokenKind) (f : Token → β) :
    (expect kind cause >>= fun t => pure (f t)).StopsConfined bounds := by
  intro setting tokens e he
  cases tokens with
  | nil =>
    rw [run_bind, run_expect_nil]
    exact ⟨⟨[], rfl, by simp⟩, by simp, by simpa using h⟩
  | cons t tokens =>
    rw [run_bind, run_expect_cons] at he ⊢
    split at he
    · contradiction
    · rename_i hkind
      rw [if_neg hkind]
      exact ⟨⟨[], rfl, by simp⟩, by simp, by simpa using h⟩

theorem Confined.mono {p : Parser α} {bounds' : Bounds} (hp : p.Confined bounds)
    (htaken : ∀ kind, bounds.taken kind → bounds'.taken kind)
    (htold : ∀ cause, bounds.told cause → bounds'.told cause)
    (hstopping : ∀ cause, bounds.stopping cause → bounds'.stopping cause) : p.Confined bounds' := by
  intro setting tokens
  obtain ⟨⟨read, hread, htakes⟩, htells, hstops⟩ := hp setting tokens
  exact ⟨⟨read, hread, fun t ht => htaken _ (htakes t ht)⟩, fun e he => htold _ (htells e he),
    fun e he => hstopping _ (hstops e he)⟩

theorem Confined.of_takes {p : Parser α} (hp : p.Confined bounds) {read rest : List Token} {a : α}
    {errors : List SyntaxError} (h : p.run setting (read ++ rest) = ⟨.ok a, errors, rest⟩) :
    (∀ t ∈ read, bounds.taken t.kind) ∧ ∀ e ∈ errors, bounds.told e.cause := by
  have hconfined := hp setting (read ++ rest)
  rw [h] at hconfined
  obtain ⟨⟨read', hread, htaken⟩, htells, -⟩ := hconfined
  obtain rfl := List.append_cancel_right hread
  exact ⟨htaken, htells⟩

end Parser

end ScriptSyntax
