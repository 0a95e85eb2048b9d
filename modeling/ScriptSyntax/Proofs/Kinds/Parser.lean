import ScriptSyntax.Parser.Loop
import ScriptSyntax.Parser.Recovery
import ScriptSyntax.Proofs.Kinds.Tree
/-! # Parsers on changed tokens

Where tokens are changed into others of the same kinds, a parser may mirror another: it makes of the
changed tokens what the other makes of the tokens, changed in the same way. Parsers that are put
together alike mirror one another if their parts do.
-/

namespace ScriptSyntax

variable {α β α' β' : Type}

/-- A change of tokens that keeps their kinds, and where the changed input ends. -/
structure Relabeling where
  token : Token → Token
  kind_token : ∀ t, (token t).kind = t.kind
  inputEnd : Location

namespace Relabeling

variable (r : Relabeling)

def setting (setting : Setting) : Setting := { setting with inputEnd := r.inputEnd }

def error (e : SyntaxError) : SyntaxError := e.mapTokens r.token r.inputEnd

/-- The outcome with its value, its errors and its tokens changed. -/
def outcome (g : α → α') (o : Outcome α) : Outcome α' where
  result :=
    match o.result with
    | .ok a => .ok (g a)
    | .error e => .error (r.error e)
  errors := o.errors.map r.error
  rest := o.rest.map r.token

variable {r} {g : α → α'} {h : β → β'}

@[simp] theorem outcome_ok (a : α) (errors : List SyntaxError) (rest : List Token) :
    r.outcome g ⟨.ok a, errors, rest⟩ = ⟨.ok (g a), errors.map r.error, rest.map r.token⟩ := rfl

@[simp] theorem outcome_error (e : SyntaxError) (errors : List SyntaxError) (rest : List Token) :
    r.outcome g ⟨.error e, errors, rest⟩ =
      ⟨.error (r.error e), errors.map r.error, rest.map r.token⟩ := rfl

theorem outcome_behind (errors : List SyntaxError) (o : Outcome α) :
    r.outcome g (o.behind errors) = (r.outcome g o).behind (errors.map r.error) := by
  simp [outcome, Outcome.behind]

theorem outcome_andThen {next : α → List Token → Outcome β} {next' : α' → List Token → Outcome β'}
    (o : Outcome α) (hnext : ∀ a rest, next' (g a) (rest.map r.token) = r.outcome h (next a rest)) :
    (r.outcome g o).andThen next' = r.outcome h (o.andThen next) := by
  rcases o with ⟨e | a, errors, rest⟩
  · rfl
  · rw [outcome_ok, Outcome.andThen_ok, Outcome.andThen_ok, outcome_behind, hnext]

theorem site_setting (setting : Setting) (tokens : List Token) :
    (r.setting setting).site (tokens.map r.token) =
      (setting.site tokens).mapTokens r.token r.inputEnd := by
  cases tokens <;> rfl

/-- `p'` makes of changed tokens what `p` makes of the tokens, changed. -/
def Mirrors (r : Relabeling) (g : α → α') (p : Parser α) (p' : Parser α') : Prop :=
  ∀ setting tokens,
    p'.run (r.setting setting) (tokens.map r.token) = r.outcome g (p.run setting tokens)

open ScriptSyntax.Parser

/-! ## Simple parsers -/

theorem mirrors_pure (a : α) : r.Mirrors g (pure a) (pure (g a)) := fun _ _ => rfl

theorem mirrors_fail (cause : SyntaxCause) : r.Mirrors g (fail cause) (fail cause) := by
  intro setting tokens
  rw [run_fail, site_setting]
  rfl

theorem mirrors_report (t : Token) (cause : SyntaxCause) :
    r.Mirrors id (report (.token t) cause) (report (.token (r.token t)) cause) := fun _ _ => rfl

theorem mirrors_reportNext (cause : SyntaxCause) :
    r.Mirrors id (reportNext cause) (reportNext cause) := by
  intro setting tokens
  rw [run_reportNext, site_setting]
  rfl

theorem mirrors_options : r.Mirrors id options options := fun _ _ => rfl

theorem mirrors_nextIs (kind : TokenKind) : r.Mirrors id (nextIs kind) (nextIs kind) := by
  intro setting tokens
  cases tokens with
  | nil => rfl
  | cons t tokens => simp [r.kind_token]

/-! ## Parsers put together -/

theorem Mirrors.bind {p : Parser α} {p' : Parser α'} {f : α → Parser β} {f' : α' → Parser β'}
    (hp : r.Mirrors g p p') (hf : ∀ a, r.Mirrors h (f a) (f' (g a))) :
    r.Mirrors h (p >>= f) (p' >>= f') := by
  intro setting tokens
  rw [run_bind, run_bind, hp]
  exact outcome_andThen _ fun a rest => hf a setting rest

theorem mirrors_onNext {choose : TokenKind → Option (Token → Parser α)}
    {choose' : TokenKind → Option (Token → Parser α')} {otherwise : Parser α}
    {otherwise' : Parser α'}
    (hchoose : ∀ kind, Option.Rel (fun p p' => ∀ t, r.Mirrors g (p t) (p' (r.token t)))
      (choose kind) (choose' kind))
    (hotherwise : r.Mirrors g otherwise otherwise') :
    r.Mirrors g (onNext choose otherwise) (onNext choose' otherwise') := by
  intro setting tokens
  cases tokens with
  | nil => exact hotherwise setting []
  | cons t rest =>
    have hrel := hchoose t.kind
    generalize hp : choose t.kind = found, hp' : choose' t.kind = found' at hrel
    rw [← r.kind_token t] at hp'
    rw [List.map_cons]
    cases hrel with
    | none =>
      rw [run_onNext_of_eq_none hp, run_onNext_of_eq_none hp']
      exact hotherwise setting (t :: rest)
    | some hrel =>
      rw [run_onNext_of_eq_some hp, run_onNext_of_eq_some hp']
      exact hrel t setting rest

theorem mirrors_expect (kind : TokenKind) (cause : SyntaxCause) :
    r.Mirrors r.token (expect kind cause) (expect kind cause) := by
  refine mirrors_onNext (fun next => ?_) (mirrors_fail cause)
  by_cases hnext : next = kind
  · rw [if_pos hnext]
    exact .some fun t => mirrors_pure t
  · rw [if_neg hnext]
    exact .none

/-! ## Loops -/

theorem mirrors_foldWhile {accepts : TokenKind → Bool} {step : α → Token → Parser α}
    {step' : α' → Token → Parser α'}
    (hstep : ∀ a t, r.Mirrors g (step a t) (step' (g a) (r.token t))) (a : α) :
    r.Mirrors g (foldWhile accepts step a) (foldWhile accepts step' (g a)) := by
  intro setting tokens
  induction hn : tokens.length using Nat.strongRecOn generalizing a tokens with
  | _ n ih =>
  cases tokens with
  | nil => rfl
  | cons t rest =>
    rw [List.map_cons, run_foldWhile_cons, run_foldWhile_cons, r.kind_token]
    split
    · rw [run_bind, run_bind, hstep]
      rcases hround : (step a t).run setting rest with ⟨e | b, errors, left⟩
      · rfl
      · have hle := (suffix_of_run hround).length_le
        rw [List.length_cons] at hn
        rw [outcome_ok, Outcome.andThen_ok, Outcome.andThen_ok, outcome_behind,
          ih left.length (by omega) b left rfl]
    · rfl

theorem mirrors_collectUntil {stops : TokenKind → Bool} {item : Parser (Option α)}
    {item' : Parser (Option α')} (hadvances : item.Advances) (hadvances' : item'.Advances)
    (hitem : r.Mirrors (Option.map g) item item') :
    r.Mirrors (List.map g) (collectUntil stops item) (collectUntil stops item') := by
  intro setting tokens
  induction hn : tokens.length using Nat.strongRecOn generalizing tokens with
  | _ n ih =>
  cases tokens with
  | nil => rfl
  | cons t rest =>
    rw [List.map_cons, run_collectUntil_cons stops item' hadvances',
      run_collectUntil_cons stops item hadvances, r.kind_token]
    split
    · rfl
    · rw [run_bind, run_bind, ← List.map_cons, hitem]
      rcases hround : item.run setting (t :: rest) with ⟨e | found, errors, left⟩
      · rfl
      · have hlt := hadvances.length_lt_of_run hround
        rw [outcome_ok, Outcome.andThen_ok, Outcome.andThen_ok, outcome_behind, run_bind, run_bind,
          ih left.length (by omega) left rfl, outcome_andThen (h := List.map g)]
        intro more rest
        cases found <;> rfl

/-! ## Recovery -/

theorem dropStatement_map (tokens : List Token) :
    dropStatement (tokens.map r.token) = (dropStatement tokens).map r.token := by
  fun_induction dropStatement tokens with
  | case1 => rfl
  | case2 => rfl
  | case3 t next rest hstop =>
    rw [List.map_cons, List.map_cons, dropStatement, r.kind_token, r.kind_token, if_pos hstop]
  | case4 t next rest hgo ih =>
    rw [List.map_cons, List.map_cons, dropStatement, r.kind_token, r.kind_token, if_neg hgo,
      ← ih, List.map_cons]

theorem Mirrors.resume {p : Parser α} {p' : Parser α'} (hp : r.Mirrors g p p') :
    r.Mirrors (Option.map g) p.resume p'.resume := by
  intro setting tokens
  have hrun := hp setting tokens
  rcases hread : p.run setting tokens with ⟨e | a, errors, rest⟩
  · rw [hread, outcome_error] at hrun
    rw [run_resume_of_error hread, run_resume_of_error hrun, dropStatement_map]
    simp
  · rw [hread, outcome_ok] at hrun
    rw [run_resume_of_ok hread, run_resume_of_ok hrun]
    rfl

theorem mirrors_finishStatement : r.Mirrors id finishStatement finishStatement := by
  intro setting tokens
  have hend : atStatementEnd (tokens.map r.token) = atStatementEnd tokens := by
    cases tokens with
    | nil => rfl
    | cons t rest => simp [atStatementEnd, r.kind_token]
  simp only [finishStatement, hend, outcome_ok]
  split
  · rfl
  · rw [dropStatement_map]
    rfl

end Relabeling

end ScriptSyntax
