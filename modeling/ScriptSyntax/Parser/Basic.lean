import ScriptSyntax.SyntaxError
/-! # Parsers

A parser reads tokens from the front of a row and says what it made of them: a value or the error
that stopped it, the errors that did not stop it, and the tokens it left. It only ever drops tokens
from the front, which is part of its type. The row ends where the input ends, so a parser cannot
read past that.
-/

namespace ScriptSyntax

variable {α β γ : Type}

/-- How to read statements. -/
structure Options where
  /-- Whether an expression statement without its semicolon is dropped. -/
  strictSemicolons : Bool := false
deriving DecidableEq, Repr

/-- The options that take no statement without its semicolon. -/
def Options.strict : Options := ⟨true⟩

/-- What a parser may know besides the tokens: the options, and where the input ends. -/
structure Setting where
  options : Options
  inputEnd : Location
deriving DecidableEq, Repr

/-- The site of the next token. -/
def Setting.site (setting : Setting) : List Token → Site
  | [] => .endOfInput setting.inputEnd
  | t :: _ => .token t

/-! ## Outcomes -/

/-- What a parser made of a row of tokens: a value or the error that stopped it, the errors before
that in the order found, and the tokens left. -/
structure Outcome (α : Type) where
  result : Except SyntaxError α
  errors : List SyntaxError
  rest : List Token

namespace Outcome

/-- The outcome with earlier errors in front of its own. -/
def behind (earlier : List SyntaxError) (outcome : Outcome α) : Outcome α :=
  { outcome with errors := earlier ++ outcome.errors }

/-- Goes on from a value and the tokens left, unless there is no value. -/
def andThen (outcome : Outcome α) (next : α → List Token → Outcome β) : Outcome β :=
  match outcome.result with
  | .error e => ⟨.error e, outcome.errors, outcome.rest⟩
  | .ok a => (next a outcome.rest).behind outcome.errors

@[simp] theorem behind_nil (o : Outcome α) : o.behind [] = o := rfl

@[simp] theorem behind_behind (es es' : List SyntaxError) (o : Outcome α) :
    (o.behind es').behind es = o.behind (es ++ es') := by
  simp [behind]

@[simp] theorem rest_behind (es : List SyntaxError) (o : Outcome α) :
    (o.behind es).rest = o.rest := rfl

@[simp] theorem andThen_ok (a : α) (es : List SyntaxError) (ts : List Token)
    (next : α → List Token → Outcome β) :
    (Outcome.mk (.ok a) es ts).andThen next = (next a ts).behind es := rfl

@[simp] theorem andThen_error (e : SyntaxError) (es : List SyntaxError) (ts : List Token)
    (next : α → List Token → Outcome β) :
    (Outcome.mk (.error e) es ts).andThen next = ⟨.error e, es, ts⟩ := rfl

theorem behind_andThen (es : List SyntaxError) (o : Outcome α)
    (next : α → List Token → Outcome β) :
    (o.behind es).andThen next = (o.andThen next).behind es := by
  rcases o with ⟨_ | a, es', ts⟩ <;> simp [behind]

theorem andThen_assoc (o : Outcome α) (f : α → List Token → Outcome β)
    (g : β → List Token → Outcome γ) :
    (o.andThen f).andThen g = o.andThen fun a ts => (f a ts).andThen g := by
  rcases o with ⟨_ | a, es, ts⟩
  · rfl
  · simp [behind_andThen]

theorem rest_andThen_suffix {ts : List Token} {o : Outcome α} {next : α → List Token → Outcome β}
    (ho : o.rest <:+ ts) (hnext : ∀ a, (next a o.rest).rest <:+ o.rest) :
    (o.andThen next).rest <:+ ts := by
  rcases o with ⟨_ | a, es, rest⟩
  · exact ho
  · exact (hnext a).trans ho

end Outcome

/-! ## Parsers -/

/-- A way to read the front of a row of tokens. -/
structure Parser (α : Type) where
  run : Setting → List Token → Outcome α
  rest_suffix : ∀ setting tokens, (run setting tokens).rest <:+ tokens

namespace Parser

@[ext] theorem ext {p q : Parser α}
    (h : ∀ setting tokens, p.run setting tokens = q.run setting tokens) : p = q := by
  cases p
  cases q
  congr
  funext setting tokens
  exact h setting tokens

theorem suffix_of_run {p : Parser α} {setting : Setting} {tokens rest : List Token}
    {result : Except SyntaxError α} {errors : List SyntaxError}
    (h : p.run setting tokens = ⟨result, errors, rest⟩) : rest <:+ tokens := by
  have := p.rest_suffix setting tokens
  rwa [h] at this

/-- Reads nothing. -/
protected def pure (a : α) : Parser α where
  run _ tokens := ⟨.ok a, [], tokens⟩
  rest_suffix _ _ := List.suffix_rfl

/-- Goes on with what `p` left, unless `p` was stopped. -/
protected def bind (p : Parser α) (f : α → Parser β) : Parser β where
  run setting tokens := (p.run setting tokens).andThen fun a rest => (f a).run setting rest
  rest_suffix setting tokens :=
    Outcome.rest_andThen_suffix (p.rest_suffix setting tokens) fun a =>
      (f a).rest_suffix setting _

instance : Monad Parser where
  pure := Parser.pure
  bind := Parser.bind

@[simp] theorem run_pure (a : α) (setting : Setting) (tokens : List Token) :
    (pure a : Parser α).run setting tokens = ⟨.ok a, [], tokens⟩ := rfl

@[simp] theorem run_bind (p : Parser α) (f : α → Parser β) (setting : Setting)
    (tokens : List Token) :
    (p >>= f).run setting tokens =
      (p.run setting tokens).andThen fun a rest => (f a).run setting rest := rfl

theorem bind_pure_self (p : Parser α) : (p >>= fun a => pure a) = p := by
  ext setting tokens
  rw [run_bind]
  rcases p.run setting tokens with ⟨_ | a, es, ts⟩
  · rfl
  · simp [Outcome.behind]

theorem bind_bind (p : Parser α) (f : α → Parser β) (g : β → Parser γ) :
    (p >>= f >>= g) = p >>= fun a => f a >>= g := by
  ext setting tokens
  simp [Outcome.andThen_assoc]

instance : LawfulMonad Parser :=
  LawfulMonad.mk' Parser bind_pure_self (fun _ _ => by ext; simp) bind_bind

/-- Stops at the next token. -/
def fail (cause : SyntaxCause) : Parser α where
  run setting tokens := ⟨.error ⟨setting.site tokens, cause⟩, [], tokens⟩
  rest_suffix _ _ := List.suffix_rfl

/-- Tells of an error and goes on. -/
def report (site : Site) (cause : SyntaxCause) : Parser Unit where
  run _ tokens := ⟨.ok (), [⟨site, cause⟩], tokens⟩
  rest_suffix _ _ := List.suffix_rfl

/-- Tells of an error at the next token and goes on. -/
def reportNext (cause : SyntaxCause) : Parser Unit where
  run setting tokens := ⟨.ok (), [⟨setting.site tokens, cause⟩], tokens⟩
  rest_suffix _ _ := List.suffix_rfl

/-- The options in force. -/
def options : Parser Options where
  run setting tokens := ⟨.ok setting.options, [], tokens⟩
  rest_suffix _ _ := List.suffix_rfl

/-- Whether the next token is of a kind. Takes no token. -/
def nextIs (kind : TokenKind) : Parser Bool where
  run _ tokens := ⟨.ok (tokens.head?.any (·.kind = kind)), [], tokens⟩
  rest_suffix _ _ := List.suffix_rfl

/-- Takes the next token and goes on as its kind chooses. Where the kind chooses nothing, or at the
end of the input, takes no token and goes on otherwise. -/
def onNext (choose : TokenKind → Option (Token → Parser α)) (otherwise : Parser α) : Parser α where
  run setting tokens :=
    match tokens with
    | [] => otherwise.run setting []
    | t :: rest =>
      match choose t.kind with
      | some p => (p t).run setting rest
      | none => otherwise.run setting (t :: rest)
  rest_suffix setting tokens := by
    split
    · exact otherwise.rest_suffix setting []
    · split
      · exact ((_ : Parser α).rest_suffix setting _).trans (List.suffix_cons _ _)
      · exact otherwise.rest_suffix setting _

/-- Takes the next token, which has to be of a kind. -/
def expect (kind : TokenKind) (cause : SyntaxCause) : Parser Token :=
  onNext (fun next => if next = kind then some pure else none) (fail cause)

@[simp] theorem run_fail (cause : SyntaxCause) (setting : Setting) (tokens : List Token) :
    (fail cause : Parser α).run setting tokens =
      ⟨.error ⟨setting.site tokens, cause⟩, [], tokens⟩ := rfl

@[simp] theorem run_report (site : Site) (cause : SyntaxCause) (setting : Setting)
    (tokens : List Token) :
    (report site cause).run setting tokens = ⟨.ok (), [⟨site, cause⟩], tokens⟩ := rfl

@[simp] theorem run_reportNext (cause : SyntaxCause) (setting : Setting) (tokens : List Token) :
    (reportNext cause).run setting tokens = ⟨.ok (), [⟨setting.site tokens, cause⟩], tokens⟩ := rfl

@[simp] theorem run_options (setting : Setting) (tokens : List Token) :
    options.run setting tokens = ⟨.ok setting.options, [], tokens⟩ := rfl

@[simp] theorem run_nextIs (kind : TokenKind) (setting : Setting) (tokens : List Token) :
    (nextIs kind).run setting tokens = ⟨.ok (tokens.head?.any (·.kind = kind)), [], tokens⟩ := rfl

@[simp] theorem run_onNext_nil (choose : TokenKind → Option (Token → Parser α))
    (otherwise : Parser α) (setting : Setting) :
    (onNext choose otherwise).run setting [] = otherwise.run setting [] := rfl

theorem run_onNext_of_eq_some {choose : TokenKind → Option (Token → Parser α)}
    {otherwise : Parser α} {t : Token} {p : Token → Parser α} (h : choose t.kind = some p)
    (setting : Setting) (rest : List Token) :
    (onNext choose otherwise).run setting (t :: rest) = (p t).run setting rest := by
  simp [onNext, h]

theorem run_onNext_of_eq_none {choose : TokenKind → Option (Token → Parser α)}
    {otherwise : Parser α} {t : Token} (h : choose t.kind = none) (setting : Setting)
    (rest : List Token) :
    (onNext choose otherwise).run setting (t :: rest) = otherwise.run setting (t :: rest) := by
  simp [onNext, h]

@[simp] theorem run_expect_nil (kind : TokenKind) (cause : SyntaxCause) (setting : Setting) :
    (expect kind cause).run setting [] = ⟨.error ⟨setting.site [], cause⟩, [], []⟩ := rfl

theorem run_expect_cons (kind : TokenKind) (cause : SyntaxCause) (setting : Setting) (t : Token)
    (rest : List Token) :
    (expect kind cause).run setting (t :: rest) =
      if t.kind = kind then ⟨.ok t, [], rest⟩ else ⟨.error ⟨.token t, cause⟩, [], t :: rest⟩ := by
  by_cases h : t.kind = kind <;> simp [expect, onNext, h, Setting.site]

end Parser

end ScriptSyntax
