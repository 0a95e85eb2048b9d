import ScriptSyntax.Proofs.Errors.Grammar
import ScriptSyntax.Proofs.Session
/-! # How many errors there are

No more than tokens are read, whatever the tokens: each error is paid for by a token of its own.
Only an expression may tell of one more, which is the error that stopped it.
-/

namespace ScriptSyntax

variable {α β : Type} {tokens : List Token} {credit middle saved : Nat}

/-- The errors of an outcome are paid for by the tokens that were taken and by what was on credit,
and some is saved. Where nothing was taken and told of, the error that stopped it is still to be paid
for. -/
structure Outcome.Paid (o : Outcome α) (tokens : List Token) (credit saved : Nat) : Prop where
  ok : ∀ a, o.result = .ok a →
    o.errors.length + o.rest.length + saved ≤ tokens.length + credit
  error : ∀ e, o.result = .error e → o.errors = [] ∧ o.rest = tokens ∨
    o.errors.length + 1 + o.rest.length ≤ tokens.length + credit

theorem Outcome.Paid.andThen {o : Outcome α} {next : α → List Token → Outcome β}
    (ho : o.Paid tokens credit middle) (hmiddle : 0 < middle)
    (hnext : ∀ a, (next a o.rest).Paid o.rest middle saved) :
    (o.andThen next).Paid tokens credit saved := by
  rcases o with ⟨e | a, errors, rest⟩
  · exact ⟨by simp, fun _ _ => ho.error e rfl⟩
  · have hfirst := ho.ok a rfl
    dsimp only at hfirst
    constructor
    · intro b hb
      have hsecond := (hnext a).ok b hb
      simp only [andThen_ok, behind, List.length_append] at hsecond ⊢
      omega
    · intro e he
      right
      rcases (hnext a).error e he with ⟨herrors, hrest⟩ | hsecond
      · simp only [andThen_ok, behind, List.length_append, herrors, hrest, List.length_nil]
        omega
      · simp only [andThen_ok, behind, List.length_append] at hsecond ⊢
        omega

namespace Parser

/-- A parser that pays on every row of tokens. -/
def Pays (p : Parser α) (credit saved : Nat) : Prop :=
  ∀ setting tokens, (p.run setting tokens).Paid tokens credit saved

theorem pays_onNext {choose : TokenKind → Option (Token → Parser α)} {otherwise : Parser α}
    (hchoose : ∀ kind p, choose kind = some p → ∀ t, (p t).Pays (credit + 1) saved)
    (hotherwise : otherwise.Pays credit saved) : (onNext choose otherwise).Pays credit saved := by
  intro setting tokens
  cases tokens with
  | nil => exact hotherwise setting []
  | cons t tokens =>
    rcases hkind : choose t.kind with _ | p
    · rw [run_onNext_of_eq_none hkind]
      exact hotherwise setting (t :: tokens)
    · rw [run_onNext_of_eq_some hkind]
      obtain ⟨hok, herror⟩ := hchoose _ _ hkind t setting tokens
      have hlength : (t :: tokens).length + credit = tokens.length + (credit + 1) := by
        rw [List.length_cons, Nat.add_right_comm, Nat.add_assoc]
      constructor
      · rwa [hlength]
      · intro e he
        right
        rw [hlength]
        rcases herror e he with ⟨herrors, hrest⟩ | hle
        · rw [herrors, hrest, List.length_nil]
          omega
        · exact hle

theorem Pays.relax {credit' saved' : Nat} {p : Parser α} (hp : p.Pays credit saved)
    (hcredit : credit ≤ credit') (hsaved : saved' + credit ≤ saved + credit') :
    p.Pays credit' saved' := by
  intro setting tokens
  obtain ⟨hok, herror⟩ := hp setting tokens
  constructor
  · intro a ha
    have := hok a ha
    omega
  · intro e he
    rcases herror e he with hnothing | hle
    · exact .inl hnothing
    · exact .inr (by omega)

theorem accounted_pays : Accounted fun _ credit saved p => p.Pays credit saved where
  pure a hle setting tokens := ⟨fun _ _ => by simpa using hle, by simp⟩
  nextIs kind credit setting tokens := ⟨fun _ _ => by simp, by simp⟩
  fail _ _ _ setting tokens := ⟨by simp, fun _ _ => .inl ⟨rfl, rfl⟩⟩
  reportNext _ credit setting tokens := ⟨fun _ _ => by simp; omega, by simp⟩
  onNext := pays_onNext
  bind hp hmiddle hf setting tokens := (hp setting tokens).andThen hmiddle fun a => hf a setting _
  relax := Pays.relax
  limit h setting tokens := by
    obtain ⟨q, hq, heq⟩ := h tokens.length
    rw [← heq setting tokens (Nat.le_refl _)]
    exact hq setting tokens

theorem pays_report (site : Site) (cause : SyntaxCause) (credit : Nat) :
    (report site cause).Pays (credit + 1) credit :=
  fun _ _ => ⟨fun _ _ => by simp; omega, by simp⟩

theorem Pays.length_le_of_takes_resume {p : Parser α} (hp : p.Pays 0 0) {setting : Setting}
    {read rest : List Token} {found : Option α} {errors : List SyntaxError}
    (h : p.resume.Takes setting read rest found errors) (hread : read ≠ []) :
    errors.length ≤ read.length := by
  obtain ⟨hok, herror⟩ := hp setting (read ++ rest)
  rcases takes_resume_iff.1 h with ⟨a, rfl, htakes⟩ | ⟨told, e, left, rfl, rfl, rfl, hrun⟩
  · rw [htakes, List.length_append] at hok
    have := hok a rfl
    dsimp only at this
    omega
  · rw [hrun, List.length_append] at herror
    rw [List.length_append, List.length_singleton]
    have hpos := List.length_pos_iff.2 hread
    have hdropped := (dropStatement_suffix left).length_le
    rcases herror e rfl with ⟨rfl, -⟩ | hle
    · exact hpos
    · dsimp only at hle
      omega

end Parser

namespace Expr

open ScriptSyntax.Parser

theorem accounted_pays : Accounted fun _ credit saved p => p.Pays credit saved where
  toAccounted := Parser.accounted_pays
  restOfExpression {inside} hinside left := by
    have h := Parser.accounted_pays
    refine h.onNext (fun kind p hp equals => ?_) (h.pure left (Nat.le_refl 1))
    split at hp
    · cases hp
      refine h.bind (h.relax hinside (Nat.zero_le 2) (Nat.le_succ 2)) Nat.two_pos fun value => ?_
      unfold assign
      split
      · exact h.pure _ (Nat.le_succ 1)
      · exact h.bind (pays_report _ _ 1) Nat.one_pos fun _ => h.pure _ (Nat.le_refl 1)
    · contradiction

end Expr

namespace Stmt

open ScriptSyntax.Parser

theorem pays_semicolon (a : α) : (semicolon >>= fun _ => pure a).Pays 1 0 := by
  intro setting tokens
  by_cases hnext : ∀ t ∈ tokens.head?, t.kind ≠ .semicolon
  · rw [run_bind, run_semicolon_of_ne hnext]
    split
    · exact ⟨by simp, fun _ _ => .inl ⟨rfl, rfl⟩⟩
    · refine ⟨fun _ _ => ?_, by simp [Outcome.behind]⟩
      have hdropped := (dropStatement_suffix tokens).length_le
      simp only [Outcome.andThen_ok, Outcome.behind, run_pure, List.length_append,
        List.length_singleton, List.length_nil]
      split
      · omega
      · omega
  · cases tokens with
    | nil => simp at hnext
    | cons t tokens =>
      rw [run_bind, run_semicolon_of_eq (by simpa using hnext)]
      exact ⟨fun _ _ => by simp [Outcome.behind]; omega, by simp⟩

theorem accounted_pays (mark : SyntaxError → SyntaxError) :
    Accounted mark (fun _ credit saved p => p.Pays credit saved)
      (fun _ credit saved p _ => p.Pays credit saved) where
  expr := Expr.accounted_pays
  semicolon := pays_semicolon
  plain := id
  onNext {_ _ _ _ choose' _ _} hchoose hotherwise := by
    refine pays_onNext (fun kind p hp => ?_) hotherwise
    have hkind := hchoose kind
    rw [hp] at hkind
    generalize choose' kind = found at hkind
    cases hkind with
    | some hp => exact hp
  bind := Parser.accounted_pays.bind
  relax := Pays.relax
  declarations {p _} hadvances _ hp stops setting tokens := by
    have hnever : (collectUntil stops p.resume).NeverStops :=
      neverStops_collectUntil hadvances (neverStops_resume p)
    obtain ⟨statements, errors, rest, hrun⟩ := hnever setting tokens
    obtain ⟨read, rfl, htakes⟩ := takes_of_run hrun
    have hle := (htakes.collectUntil_invariant hadvances
      (fun _ read errors => errors.length ≤ read.length) (Nat.le_refl 0)
      fun found first earlier rest values later errors hne hfound hlater => by
        have := hp.length_le_of_takes_resume hfound hne
        rw [List.length_append, List.length_append]
        omega).1
    rw [hrun]
    refine ⟨fun _ _ => ?_, by simp⟩
    rw [List.length_append]
    dsimp only
    omega

end Stmt

namespace TokenStream

open ScriptSyntax.Parser

variable {stream : TokenStream} {options : Options}

theorem program_pays : program.Pays 0 0 :=
  Stmt.accounted_of_room (Stmt.accounted_pays id) maxNesting _

theorem length_errors_readProgram :
    (stream.readProgram options).1.errors.length ≤ stream.tokens.length := by
  have hpaid := (program_pays ⟨options, stream.inputEnd⟩ stream.tokens).ok
  rw [run_program] at hpaid
  exact hpaid _ rfl

theorem length_errors_readExpression :
    (stream.readExpression options).1.errors.length +
      (stream.readExpression options).2.tokens.length ≤ stream.tokens.length + 1 := by
  have hexpression := Expr.accounted_of_room Expr.accounted_pays maxNesting
  obtain ⟨hok, herror⟩ := hexpression ⟨options, stream.inputEnd⟩ stream.tokens
  unfold readExpression read
  rcases hrun : (Expr.parser maxNesting).run ⟨options, stream.inputEnd⟩ stream.tokens with
    ⟨e | a, errors, rest⟩
  · -- The error that stopped it counts too, but no token pays for it.
    rw [hrun] at herror
    dsimp only at herror ⊢
    rw [List.length_append, List.length_singleton]
    rcases herror e rfl with ⟨rfl, rfl⟩ | hle
    · rw [List.length_nil]
      omega
    · omega
  · rw [hrun] at hok
    have := hok a rfl
    dsimp only at this ⊢
    omega

/-- A program tells of no more errors than it takes tokens, and an expression of at most one
more. -/
theorem errors_le_read (tokens : List Token) (options : Options) (entries : List Entry) :
    let stream := (ofTokens tokens).after options entries
    let start := position tokens stream
    let program := stream.readProgram options
    let expression := stream.readExpression options
    start + program.1.errors.length ≤ position tokens program.2 ∧
      start + expression.1.errors.length ≤ position tokens expression.2 + 1 := by
  intro stream start program expression
  have hstream : stream.tokens.length ≤ (ofTokens tokens).tokens.length :=
    (after_suffix entries).length_le
  have hposition (entry : Entry) : position tokens (leftBy options stream entry) +
      (leftBy options stream entry).tokens.length = start + stream.tokens.length := by
    have hleft : (leftBy options stream entry).tokens.length ≤ stream.tokens.length :=
      (leftBy_suffix entry).length_le
    unfold start position
    omega
  constructor
  · have hle : program.1.errors.length ≤ stream.tokens.length := length_errors_readProgram
    have hend : program.2.tokens.length = 0 := by rw [readProgram_tokens, List.length_nil]
    have hmoved : position tokens program.2 + program.2.tokens.length = _ := hposition .program
    omega
  · have hle : expression.1.errors.length + expression.2.tokens.length ≤ _ :=
      length_errors_readExpression
    have hmoved : position tokens expression.2 + expression.2.tokens.length = _ :=
      hposition .expression
    omega

/-- There may be as many errors: each brace that is not closed is told of. -/
example :
    let stream := ofTokens (Token.ofKinds [.leftBrace, .leftBrace, .endOfInput])
    (stream.readProgram {}).1.errors.length = stream.tokens.length := by
  decide

end TokenStream

end ScriptSyntax
