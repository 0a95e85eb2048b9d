import ScriptSyntax.Parser.Basic
/-! # Repeated parsers -/

namespace ScriptSyntax.Parser

variable {α β : Type}

/-! ## As long as the next token is accepted -/

/-- As long as the next token is accepted, takes it and goes on with `step` from the value so far.
Each round takes a token, so `bound` need not be longer than the row of tokens. -/
def foldWhile.go (accepts : TokenKind → Bool) (step : β → Token → Parser β) (setting : Setting) :
    List Token → List Token → β → List SyntaxError → Outcome β
  | _ :: bound, t :: rest, value, earlier =>
    if accepts t.kind then
      let round := (step value t).run setting rest
      match round.result with
      | .ok value =>
        foldWhile.go accepts step setting bound round.rest value (round.errors.reverseAux earlier)
      | .error e => ⟨.error e, earlier.reverseAux round.errors, round.rest⟩
    else ⟨.ok value, earlier.reverse, t :: rest⟩
  | _, tokens, value, earlier => ⟨.ok value, earlier.reverse, tokens⟩

theorem foldWhile.go_suffix (accepts : TokenKind → Bool) (step : β → Token → Parser β)
    (setting : Setting) (bound tokens : List Token) (value : β) (earlier : List SyntaxError) :
    (go accepts step setting bound tokens value earlier).rest <:+ tokens := by
  fun_induction go accepts step setting bound tokens value earlier with
  | case1 _ bound t rest value earlier _ round v _ ih =>
    exact (ih.trans ((step value t).rest_suffix setting rest)).trans (List.suffix_cons _ _)
  | case2 _ bound t rest value earlier _ round e _ =>
    exact ((step value t).rest_suffix setting rest).trans (List.suffix_cons _ _)
  | case3 => exact List.suffix_rfl
  | case4 => exact List.suffix_rfl

/-- As long as the next token is accepted, takes it and goes on with `step` from the value so
far. -/
def foldWhile (accepts : TokenKind → Bool) (step : β → Token → Parser β) (init : β) :
    Parser β where
  run setting tokens := foldWhile.go accepts step setting tokens tokens init []
  rest_suffix setting tokens := foldWhile.go_suffix accepts step setting tokens tokens init []

/-- A longer bound changes nothing, and earlier errors come first. -/
theorem foldWhile.go_eq (accepts : TokenKind → Bool) (step : β → Token → Parser β)
    (setting : Setting) (bound tokens : List Token) (value : β) (earlier : List SyntaxError)
    (h : tokens.length ≤ bound.length) :
    go accepts step setting bound tokens value earlier =
      ((foldWhile accepts step value).run setting tokens).behind earlier.reverse := by
  show _ = (go accepts step setting tokens tokens value []).behind earlier.reverse
  induction hn : tokens.length using Nat.strongRecOn generalizing bound tokens value earlier with
  | _ n ih =>
  cases tokens with
  | nil => cases bound <;> simp [go, Outcome.behind]
  | cons t rest =>
    cases bound with
    | nil => simp at h
    | cons b bound =>
      simp only [List.length_cons] at h hn
      simp only [go]
      split
      · have hrest := ((step value t).rest_suffix setting rest).length_le
        split
        · -- Both sides go on with fewer tokens, from one bound or another.
          rw [ih _ (by omega) bound _ _ _ (by omega) rfl, ih _ (by omega) rest _ _ _ hrest rfl]
          simp [List.reverseAux_eq]
        · simp [Outcome.behind, List.reverseAux_eq]
      · simp [Outcome.behind]

@[simp] theorem run_foldWhile_nil (accepts : TokenKind → Bool) (step : β → Token → Parser β)
    (value : β) (setting : Setting) :
    (foldWhile accepts step value).run setting [] = ⟨.ok value, [], []⟩ := rfl

theorem run_foldWhile_cons (accepts : TokenKind → Bool) (step : β → Token → Parser β) (value : β)
    (setting : Setting) (t : Token) (rest : List Token) :
    (foldWhile accepts step value).run setting (t :: rest) =
      if accepts t.kind then
        (((step value t) >>= foldWhile accepts step).run setting rest)
      else ⟨.ok value, [], t :: rest⟩ := by
  show foldWhile.go accepts step setting (t :: rest) (t :: rest) value [] = _
  simp only [foldWhile.go]
  split
  · have hrest := ((step value t).rest_suffix setting rest).length_le
    rw [run_bind]
    rcases hround : (step value t).run setting rest with ⟨_ | v, es, ts⟩
    · simp
    · rw [hround] at hrest
      simp [foldWhile.go_eq accepts step setting rest ts v _ hrest]
  · simp

/-! ## Until the next token is one to stop at -/

/-- Reads items until the next token is one to stop at, and keeps those that are there. An item
takes at least one token, so `bound` need not be longer than the row of tokens. -/
def collectUntil.go (stops : TokenKind → Bool) (item : Parser (Option α)) (setting : Setting) :
    List Token → List Token → List α → List SyntaxError → Outcome (List α)
  | _ :: bound, t :: rest, items, earlier =>
    if stops t.kind then ⟨.ok items.reverse, earlier.reverse, t :: rest⟩
    else
      let round := item.run setting (t :: rest)
      match round.result with
      | .ok found =>
        collectUntil.go stops item setting bound round.rest (found.toList ++ items)
          (round.errors.reverseAux earlier)
      | .error e => ⟨.error e, earlier.reverseAux round.errors, round.rest⟩
  | _, tokens, items, earlier => ⟨.ok items.reverse, earlier.reverse, tokens⟩

theorem collectUntil.go_suffix (stops : TokenKind → Bool) (item : Parser (Option α))
    (setting : Setting) (bound tokens : List Token) (items : List α)
    (earlier : List SyntaxError) :
    (go stops item setting bound tokens items earlier).rest <:+ tokens := by
  fun_induction go stops item setting bound tokens items earlier with
  | case1 => exact List.suffix_rfl
  | case2 _ bound t rest items earlier _ round found _ ih =>
    exact ih.trans (item.rest_suffix setting (t :: rest))
  | case3 _ bound t rest items earlier _ round e _ =>
    exact item.rest_suffix setting (t :: rest)
  | case4 => exact List.suffix_rfl

/-- Reads items until the next token is one to stop at or the input ends, and keeps those that are
there. Meant for items that take at least one token: there are no more rounds than tokens. -/
def collectUntil (stops : TokenKind → Bool) (item : Parser (Option α)) : Parser (List α) where
  run setting tokens := collectUntil.go stops item setting tokens tokens [] []
  rest_suffix setting tokens := collectUntil.go_suffix stops item setting tokens tokens [] []

/-- A parser advances if it takes a token from every row that has one, also where it is stopped. -/
def Advances (p : Parser α) : Prop :=
  ∀ setting t rest, (p.run setting (t :: rest)).rest.length ≤ rest.length

theorem Advances.length_lt_of_run {p : Parser α} (hp : p.Advances) {setting : Setting} {t : Token}
    {tokens rest : List Token} {result : Except SyntaxError α} {errors : List SyntaxError}
    (h : p.run setting (t :: tokens) = ⟨result, errors, rest⟩) :
    rest.length < (t :: tokens).length := by
  have := hp setting t tokens
  rw [h] at this
  exact Nat.lt_succ_of_le this

/-- A longer bound changes nothing, earlier errors come first, and earlier items too. -/
theorem collectUntil.go_eq (stops : TokenKind → Bool) (item : Parser (Option α))
    (hitem : item.Advances) (setting : Setting) (bound tokens : List Token) (items : List α)
    (earlier : List SyntaxError) (h : tokens.length ≤ bound.length) :
    go stops item setting bound tokens items earlier =
      ((collectUntil stops item >>= fun more => pure (items.reverse ++ more)).run setting
        tokens).behind earlier.reverse := by
  show _ = ((go stops item setting tokens tokens [] []).andThen _).behind earlier.reverse
  induction hn : tokens.length using Nat.strongRecOn generalizing bound tokens items earlier with
  | _ n ih =>
  cases tokens with
  | nil => cases bound <;> simp [go, Outcome.behind]
  | cons t rest =>
    cases bound with
    | nil => simp at h
    | cons b bound =>
      simp only [List.length_cons] at h hn
      simp only [go]
      split
      · simp [Outcome.behind]
      · have hround := hitem setting t rest
        split
        · rename_i found hfound
          rw [ih _ (by omega) bound _ _ _ (by omega) rfl, ih _ (by omega) rest _ _ _ hround rfl]
          rcases go stops item setting _ _ [] [] with ⟨_ | more, es, ts⟩ <;>
            cases found <;> simp [Outcome.behind, List.reverseAux_eq]
        · simp [Outcome.behind, List.reverseAux_eq]

@[simp] theorem run_collectUntil_nil (stops : TokenKind → Bool) (item : Parser (Option α))
    (setting : Setting) :
    (collectUntil stops item).run setting [] = ⟨.ok [], [], []⟩ := rfl

theorem run_collectUntil_cons (stops : TokenKind → Bool) (item : Parser (Option α))
    (hitem : item.Advances) (setting : Setting) (t : Token) (rest : List Token) :
    (collectUntil stops item).run setting (t :: rest) =
      if stops t.kind then ⟨.ok [], [], t :: rest⟩
      else
        (item >>= fun found => collectUntil stops item >>= fun more =>
          pure (found.toList ++ more)).run setting (t :: rest) := by
  show collectUntil.go stops item setting (t :: rest) (t :: rest) [] [] = _
  simp only [collectUntil.go]
  split
  · simp
  · have hround := hitem setting t rest
    rw [run_bind]
    rcases hfound : item.run setting (t :: rest) with ⟨_ | found, es, ts⟩
    · simp
    · rw [hfound] at hround
      dsimp only at hround ⊢
      rw [collectUntil.go_eq stops item hitem setting rest ts _ _ hround]
      cases found <;> simp [List.reverseAux_eq]

theorem run_collectUntil_of_stop {stops : TokenKind → Bool} {item : Parser (Option α)}
    (hitem : item.Advances) (setting : Setting) {tokens : List Token}
    (h : ∀ t ∈ tokens.head?, stops t.kind = true) :
    (collectUntil stops item).run setting tokens = ⟨.ok [], [], tokens⟩ := by
  cases tokens with
  | nil => rfl
  | cons t rest => rw [run_collectUntil_cons stops item hitem, if_pos (h t rfl)]

theorem run_collectUntil_of_item {stops : TokenKind → Bool} {item : Parser (Option α)}
    (hitem : item.Advances) {setting : Setting} {t : Token} {tokens left rest : List Token}
    {found : Option α} {values : List α} {told errors : List SyntaxError}
    (hgo : stops t.kind = false) (hfound : item.run setting (t :: tokens) = ⟨.ok found, told, left⟩)
    (hrest : (collectUntil stops item).run setting left = ⟨.ok values, errors, rest⟩) :
    (collectUntil stops item).run setting (t :: tokens) =
      ⟨.ok (found.toList ++ values), told ++ errors, rest⟩ := by
  rw [run_collectUntil_cons stops item hitem, hgo, if_neg Bool.false_ne_true, run_bind, hfound,
    Outcome.andThen_ok, run_bind, hrest]
  simp [Outcome.behind]

end ScriptSyntax.Parser
