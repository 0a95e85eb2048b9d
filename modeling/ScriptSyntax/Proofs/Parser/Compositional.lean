import ScriptSyntax.Parser.Loop
import ScriptSyntax.Parser.Recovery
/-! # What holds of parsers because of how they are made

A property that simple parsers have and that is kept where parsers are put together holds of the
loops too, since on rows of bounded length a loop is put together from finitely many rounds. The same
goes for a relation between two parsers that are put together in the same way.
-/

namespace ScriptSyntax.Parser

variable {α β : Type}

/-! ## Loops of finitely many rounds -/

/-- Goes on as the kind of the next token asks for, or the end of the input. Takes no token. -/
def look (next : Option TokenKind → Parser α) : Parser α where
  run setting tokens := (next (tokens.head?.map (·.kind))).run setting tokens
  rest_suffix setting tokens := (next _).rest_suffix setting tokens

theorem nextIs_eq (kind : TokenKind) :
    nextIs kind = look fun next => pure (next.any (· = kind)) := by
  ext setting tokens
  cases tokens <;> rfl

theorem foldWhile_eq (accepts : TokenKind → Bool) (step : β → Token → Parser β) (value : β) :
    foldWhile accepts step value = onNext (fun kind => if accepts kind then some fun t =>
      step value t >>= foldWhile accepts step else none) (pure value) := by
  ext setting tokens
  cases tokens with
  | nil => rfl
  | cons t rest =>
    rw [run_foldWhile_cons]
    split
    · rename_i haccepts
      rw [run_onNext_of_eq_some (if_pos haccepts)]
    · rename_i haccepts
      rw [run_onNext_of_eq_none (if_neg haccepts), run_pure]

/-- The loop that `foldWhile` is, ended after some rounds. -/
def foldUpTo (accepts : TokenKind → Bool) (step : β → Token → Parser β) : Nat → β → Parser β
  | 0, value => pure value
  | rounds + 1, value =>
    onNext (fun kind => if accepts kind then some fun t => step value t >>=
      foldUpTo accepts step rounds else none) (pure value)

theorem run_foldUpTo (accepts : TokenKind → Bool) (step : β → Token → Parser β) {rounds : Nat}
    (value : β) (setting : Setting) {tokens : List Token} (h : tokens.length ≤ rounds) :
    (foldUpTo accepts step rounds value).run setting tokens =
      (foldWhile accepts step value).run setting tokens := by
  induction rounds generalizing value tokens with
  | zero =>
    obtain rfl := List.length_eq_zero_iff.1 (Nat.le_zero.1 h)
    rfl
  | succ rounds ih =>
    cases tokens with
    | nil => rfl
    | cons t rest =>
      unfold foldUpTo
      rw [run_foldWhile_cons]
      split
      · rename_i haccepts
        rw [run_onNext_of_eq_some (if_pos haccepts), run_bind, run_bind]
        rcases hround : (step value t).run setting rest with ⟨_ | v, errors, left⟩
        · rfl
        · have hle := (suffix_of_run hround).length_le
          rw [List.length_cons] at h
          rw [Outcome.andThen_ok, Outcome.andThen_ok, ih v (by omega)]
      · rename_i haccepts
        rw [run_onNext_of_eq_none (if_neg haccepts), run_pure]

/-- The loop that `collectUntil` is, ended after some rounds. -/
def collectUpTo (stops : TokenKind → Bool) (item : Parser (Option α)) : Nat → Parser (List α)
  | 0 => pure []
  | rounds + 1 =>
    look fun
      | none => pure []
      | some kind =>
        if stops kind then pure []
        else item >>= fun found => collectUpTo stops item rounds >>= fun more =>
          pure (found.toList ++ more)

theorem run_collectUpTo (stops : TokenKind → Bool) {item : Parser (Option α)}
    (hitem : item.Advances) {rounds : Nat} (setting : Setting) {tokens : List Token}
    (h : tokens.length ≤ rounds) :
    (collectUpTo stops item rounds).run setting tokens =
      (collectUntil stops item).run setting tokens := by
  induction rounds generalizing tokens with
  | zero =>
    obtain rfl := List.length_eq_zero_iff.1 (Nat.le_zero.1 h)
    rfl
  | succ rounds ih =>
    cases tokens with
    | nil => rfl
    | cons t rest =>
      rw [run_collectUntil_cons stops item hitem]
      show (if stops t.kind then _ else _ : Parser (List α)).run setting (t :: rest) = _
      split
      · rfl
      · rw [run_bind, run_bind]
        rcases hround : item.run setting (t :: rest) with ⟨_ | found, errors, left⟩
        · rfl
        · have hlt := hitem.length_lt_of_run hround
          rw [List.length_cons] at h hlt
          rw [Outcome.andThen_ok, Outcome.andThen_ok, run_bind, run_bind, ih (by omega)]

theorem run_collectUpTo_of_stop {stops : TokenKind → Bool} {item : Parser (Option α)}
    (rounds : Nat) (setting : Setting) {tokens : List Token}
    (h : ∀ t ∈ tokens.head?, stops t.kind = true) :
    (collectUpTo stops item rounds).run setting tokens = ⟨.ok [], [], tokens⟩ := by
  cases rounds with
  | zero => rfl
  | succ rounds =>
    cases tokens with
    | nil => rfl
    | cons t rest =>
      show (if stops t.kind then _ else _ : Parser (List α)).run setting (t :: rest) = _
      rw [if_pos (h t rfl), run_pure]

theorem run_collectUpTo_of_item {stops : TokenKind → Bool} {item : Parser (Option α)}
    (rounds : Nat) {setting : Setting} {t : Token} {tokens left : List Token} {found : Option α}
    {told : List SyntaxError} (hgo : stops t.kind = false)
    (hfound : item.run setting (t :: tokens) = ⟨.ok found, told, left⟩) :
    let first := (collectUpTo stops item (rounds + 1)).run setting (t :: tokens)
    let others := (collectUpTo stops item rounds).run setting left
    first.errors = told ++ others.errors ∧ first.rest = others.rest := by
  intro first others
  have hfirst : first = (others.andThen fun more rest =>
      (pure (found.toList ++ more) : Parser (List α)).run setting rest).behind told := by
    show (if stops t.kind then _ else _ : Parser (List α)).run setting (t :: tokens) = _
    rw [hgo, if_neg Bool.false_ne_true, run_bind, hfound, Outcome.andThen_ok, run_bind]
  rw [hfirst]
  rcases others with ⟨e | values, errors, rest⟩
  · exact ⟨rfl, rfl⟩
  · simp [Outcome.behind]

/-! ## Compositional properties and relations -/

/-- A property that holds of parsers because of how they are made, as long as the tokens that they
take are among those of `seen`. -/
structure Compositional (seen : Token → Prop) (P : (α : Type) → Parser α → Prop) : Prop where
  pure : ∀ {α : Type} (a : α), P α (pure a)
  fail : ∀ {α : Type} (cause : SyntaxCause), P α (fail cause)
  report : ∀ t, seen t → ∀ cause, P Unit (report (.token t) cause)
  reportNext : ∀ cause, P Unit (reportNext cause)
  look : ∀ {α : Type} {next : Option TokenKind → Parser α}, (∀ kind, P α (next kind)) →
    P α (look next)
  onNext : ∀ {α : Type} {choose : TokenKind → Option (Token → Parser α)} {otherwise : Parser α},
    (∀ kind p, choose kind = some p → ∀ t, seen t → P α (p t)) → P α otherwise →
    P α (onNext choose otherwise)
  bind : ∀ {α β : Type} {p : Parser α} {f : α → Parser β}, P α p → (∀ a, P β (f a)) →
    P β (p >>= f)
  /-- What is the same on short rows as some parser with the property, however long they may be,
  has the property. -/
  limit : ∀ {α : Type} {p : Parser α},
    (∀ n, ∃ q, P α q ∧ ∀ setting tokens, tokens.length ≤ n →
      q.run setting tokens = p.run setting tokens) → P α p

/-- A relation between two parsers that are made in the same way, as long as the tokens that they take
are among those of `seen`. -/
structure Congruent (seen : Token → Prop) (R : (α : Type) → Parser α → Parser α → Prop) :
    Prop where
  pure : ∀ {α : Type} (a : α), R α (pure a) (pure a)
  fail : ∀ {α : Type} (cause : SyntaxCause), R α (fail cause) (fail cause)
  report : ∀ t, seen t → ∀ cause, R Unit (report (.token t) cause) (report (.token t) cause)
  reportNext : ∀ cause, R Unit (reportNext cause) (reportNext cause)
  look : ∀ {α : Type} {next next' : Option TokenKind → Parser α},
    (∀ kind, R α (next kind) (next' kind)) → R α (look next) (look next')
  onNext : ∀ {α : Type} {choose choose' : TokenKind → Option (Token → Parser α)}
    {otherwise otherwise' : Parser α},
    (∀ kind, Option.Rel (fun p p' => ∀ t, seen t → R α (p t) (p' t)) (choose kind)
      (choose' kind)) → R α otherwise otherwise' →
    R α (onNext choose otherwise) (onNext choose' otherwise')
  bind : ∀ {α β : Type} {p p' : Parser α} {f f' : α → Parser β}, R α p p' →
    (∀ a, R β (f a) (f' a)) → R β (p >>= f) (p' >>= f')
  /-- What is the same on short rows as some parsers that are related, however long they may be, is
  related. -/
  limit : ∀ {α : Type} {p p' : Parser α},
    (∀ n, ∃ q q', R α q q' ∧ ∀ setting tokens, tokens.length ≤ n →
      q.run setting tokens = p.run setting tokens ∧
      q'.run setting tokens = p'.run setting tokens) → R α p p'

/-- A property of parsers relates each that has it to any other. -/
theorem Compositional.congruent {seen : Token → Prop} {P : (α : Type) → Parser α → Prop}
    (h : Compositional seen P) : Congruent seen fun α p _ => P α p where
  pure := h.pure
  fail := h.fail
  report := h.report
  reportNext := h.reportNext
  look := h.look
  onNext {_ _ choose' _ _} hchoose hotherwise := by
    refine h.onNext (fun kind p hp => ?_) hotherwise
    have hkind := hchoose kind
    rw [hp] at hkind
    generalize choose' kind = found at hkind
    cases hkind with
    | some hp => exact hp
  bind := h.bind
  limit hlimit := h.limit fun n =>
    let ⟨q, _, hq, heq⟩ := hlimit n
    ⟨q, hq, fun setting tokens htokens => (heq setting tokens htokens).1⟩

theorem Congruent.diagonal {seen : Token → Prop} {R : (α : Type) → Parser α → Parser α → Prop}
    (h : Congruent seen R) : Compositional seen fun α p => R α p p where
  pure := h.pure
  fail := h.fail
  report := h.report
  reportNext := h.reportNext
  look := h.look
  onNext {_ choose _} hchoose hotherwise := by
    refine h.onNext (fun kind => ?_) hotherwise
    rcases hkind : choose kind with _ | p
    · exact .none
    · exact .some (hchoose kind p hkind)
  bind := h.bind
  limit hlimit := h.limit fun n =>
    let ⟨q, hq, heq⟩ := hlimit n
    ⟨q, q, hq, fun setting tokens htokens =>
      ⟨heq setting tokens htokens, heq setting tokens htokens⟩⟩

namespace Congruent

variable {seen : Token → Prop} {R : (α : Type) → Parser α → Parser α → Prop}
  (h : Congruent seen R)
include h

theorem nextIs (kind : TokenKind) : R Bool (nextIs kind) (nextIs kind) := by
  rw [nextIs_eq]
  exact h.look fun _ => h.pure _

theorem expect (kind : TokenKind) (cause : SyntaxCause) :
    R Token (expect kind cause) (expect kind cause) := by
  refine h.onNext (fun k => ?_) (h.fail cause)
  split
  · exact .some fun t _ => h.pure t
  · exact .none

theorem foldWhile {accepts : TokenKind → Bool} {step step' : β → Token → Parser β}
    (hstep : ∀ value t, seen t → R β (step value t) (step' value t)) (init : β) :
    R β (foldWhile accepts step init) (foldWhile accepts step' init) := by
  have hrounds : ∀ rounds value,
      R β (foldUpTo accepts step rounds value) (foldUpTo accepts step' rounds value) := by
    intro rounds
    induction rounds with
    | zero => exact h.pure
    | succ rounds ih =>
      intro value
      refine h.onNext (fun kind => ?_) (h.pure value)
      split
      · exact .some fun t ht => h.bind (hstep value t ht) ih
      · exact .none
  exact h.limit fun n => ⟨_, _, hrounds n init, fun setting _ htokens =>
    ⟨run_foldUpTo accepts step init setting htokens,
      run_foldUpTo accepts step' init setting htokens⟩⟩

theorem collectUntil {stops : TokenKind → Bool} {item item' : Parser (Option α)}
    (hadvances : item.Advances) (hadvances' : item'.Advances) (hitem : R (Option α) item item') :
    R (List α) (collectUntil stops item) (collectUntil stops item') := by
  have hrounds : ∀ rounds,
      R (List α) (collectUpTo stops item rounds) (collectUpTo stops item' rounds) := by
    intro rounds
    induction rounds with
    | zero => exact h.pure []
    | succ rounds ih =>
      apply h.look
      rintro (_ | kind)
      · exact h.pure []
      · dsimp only
        split
        · exact h.pure []
        · exact h.bind hitem fun found => h.bind ih fun more => h.pure _
  exact h.limit fun n => ⟨_, _, hrounds n, fun setting _ htokens =>
    ⟨run_collectUpTo stops hadvances setting htokens,
      run_collectUpTo stops hadvances' setting htokens⟩⟩

end Congruent

theorem Compositional.collectUntil {seen : Token → Prop} {P : (α : Type) → Parser α → Prop}
    (h : Compositional seen P) {stops : TokenKind → Bool} {item : Parser (Option α)}
    (hadvances : item.Advances) (hitem : P (Option α) item) :
    P (List α) (collectUntil stops item) :=
  h.congruent.collectUntil hadvances hadvances hitem

end ScriptSyntax.Parser
