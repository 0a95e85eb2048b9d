import ScriptSyntax.Proofs.Composition
import ScriptSyntax.Proofs.Session
/-! # Reading with and without the strict options

Two runs under different options are the same up to the first error that only one kind of options lets
pass. The run that goes on tells of that error on the spot. The other one is stopped by it, and since
nothing is told of on the way out, the next error there is told of is this one.
-/

namespace ScriptSyntax

variable {α β : Type} {marks : SyntaxCause → Prop} {es es' : List SyntaxError}

/-! ## Rows of errors that part -/

/-- Two rows of errors that are the same up to one whose cause is marked, that one included. -/
inductive PartedAt (marks : SyntaxCause → Prop) : List SyntaxError → List SyntaxError → Prop
  | here {e : SyntaxError} {more more' : List SyntaxError} (marked : marks e.cause) :
      PartedAt marks (e :: more) (e :: more')
  | later {e : SyntaxError} {es es' : List SyntaxError} (others_parted : PartedAt marks es es') :
      PartedAt marks (e :: es) (e :: es')

namespace PartedAt

theorem behind (h : PartedAt marks es es') (earlier : List SyntaxError) :
    PartedAt marks (earlier ++ es) (earlier ++ es') := by
  induction earlier with
  | nil => exact h
  | cons e earlier ih => exact .later ih

theorem of_prefix {fs fs' : List SyntaxError} (h : PartedAt marks es es') (hes : es <+: fs)
    (hes' : es' <+: fs') : PartedAt marks fs fs' := by
  obtain ⟨more, rfl⟩ := hes
  obtain ⟨more', rfl⟩ := hes'
  induction h with
  | here hmarked => exact .here hmarked
  | later _ ih => exact .later ih

theorem self_of_marked (h : ∃ e ∈ es, marks e.cause) : PartedAt marks es es := by
  obtain ⟨e, he, hmarked⟩ := h
  obtain ⟨front, more, rfl⟩ := List.append_of_mem he
  exact (PartedAt.here hmarked).behind front

theorem exists_first (h : PartedAt marks es es') :
    ∃ front e more more', es = front ++ e :: more ∧ es' = front ++ e :: more' ∧ marks e.cause ∧
      ∀ e ∈ front, ¬ marks e.cause := by
  induction h with
  | @here e more more' hmarked => exact ⟨[], e, more, more', rfl, rfl, hmarked, by simp⟩
  | @later e es es' _ ih =>
    by_cases hmarked : marks e.cause
    · exact ⟨[], e, es, es', rfl, rfl, hmarked, by simp⟩
    · obtain ⟨front, first, more, more', rfl, rfl, hfirst, hfront⟩ := ih
      exact ⟨e :: front, first, more, more', rfl, rfl, hfirst, by simpa [hmarked] using hfront⟩

end PartedAt

/-! ## Outcomes -/

namespace Outcome

/-- All errors of an outcome: behind the others the one that stopped it. -/
def told (o : Outcome α) : List SyntaxError :=
  match o.result with
  | .ok _ => o.errors
  | .error e => o.errors ++ [e]

theorem told_behind (earlier : List SyntaxError) (o : Outcome α) :
    (o.behind earlier).told = earlier ++ o.told := by
  rcases o with ⟨_ | a, errors, rest⟩ <;> simp [told, behind]

theorem told_prefix_andThen (o : Outcome α) (next : α → List Token → Outcome β) :
    o.told <+: (o.andThen next).told := by
  rcases o with ⟨e | a, errors, rest⟩
  · exact List.prefix_rfl
  · rw [andThen_ok, told_behind]
    exact List.prefix_append _ _

/-- Two outcomes that are the same, or whose errors part. -/
def Agrees (o o' : Outcome α) (marks : SyntaxCause → Prop) : Prop :=
  o = o' ∨ PartedAt marks o.told o'.told

theorem Agrees.andThen {o o' : Outcome α} {next next' : α → List Token → Outcome β}
    (ho : o.Agrees o' marks) (hnext : ∀ a rest, (next a rest).Agrees (next' a rest) marks) :
    (o.andThen next).Agrees (o'.andThen next') marks := by
  rcases ho with rfl | hparted
  · rcases o with ⟨e | a, errors, rest⟩
    · exact .inl rfl
    · rw [andThen_ok, andThen_ok]
      rcases hnext a rest with heq | hparted
      · exact .inl (by rw [heq])
      · right
        rw [told_behind, told_behind]
        exact hparted.behind errors
  · exact .inr (hparted.of_prefix (o.told_prefix_andThen next) (o'.told_prefix_andThen next'))

end Outcome

/-! ## Parsers -/

namespace Parser

/-- Under two options that go together, two parsers make the same of a row of tokens, or the errors
part. -/
def AgreesWith (p q : Parser α) (together : Options → Options → Prop)
    (marks : SyntaxCause → Prop) : Prop :=
  ∀ options options' inputEnd tokens, together options options' →
    (p.run ⟨options, inputEnd⟩ tokens).Agrees (q.run ⟨options', inputEnd⟩ tokens) marks

theorem congruent_agreesWith (together : Options → Options → Prop) (marks : SyntaxCause → Prop) :
    Congruent (fun _ => True) fun _ p q => p.AgreesWith q together marks where
  pure _ _ _ _ _ _ := .inl rfl
  fail _ _ _ _ _ _ := .inl rfl
  report _ _ _ _ _ _ _ _ := .inl rfl
  reportNext _ _ _ _ _ _ := .inl rfl
  look h options options' inputEnd tokens := h _ options options' inputEnd tokens
  onNext {_ choose choose' _ _} hchoose hotherwise := by
    intro options options' inputEnd tokens htogether
    cases tokens with
    | nil => exact hotherwise options options' inputEnd [] htogether
    | cons t tokens =>
      have hrelated := hchoose t.kind
      rcases hkind : choose t.kind with _ | p <;> rcases hkind' : choose' t.kind with _ | p' <;>
        rw [hkind, hkind'] at hrelated
      · rw [run_onNext_of_eq_none hkind, run_onNext_of_eq_none hkind']
        exact hotherwise options options' inputEnd (t :: tokens) htogether
      · contradiction
      · contradiction
      · rw [run_onNext_of_eq_some hkind, run_onNext_of_eq_some hkind']
        cases hrelated with
        | some hp => exact hp t trivial options options' inputEnd tokens htogether
  bind hp hf := by
    intro options options' inputEnd tokens htogether
    exact (hp options options' inputEnd tokens htogether).andThen fun a rest =>
      hf a options options' inputEnd rest htogether
  limit h := by
    intro options options' inputEnd tokens
    obtain ⟨q, q', hq, heq⟩ := h tokens.length
    rw [← (heq _ tokens (Nat.le_refl _)).1, ← (heq _ tokens (Nat.le_refl _)).2]
    exact hq options options' inputEnd tokens

/-- Under any two options, a parser makes the same of a row of tokens, or the errors part. -/
def Agrees (p : Parser α) (marks : SyntaxCause → Prop) : Prop :=
  p.AgreesWith p (fun _ _ => True) marks

theorem compositional_agrees (marks : SyntaxCause → Prop) :
    Compositional (fun _ => True) fun _ p => p.Agrees marks :=
  (congruent_agreesWith _ marks).diagonal

theorem told_run_resume (p : Parser α) (setting : Setting) (tokens : List Token) :
    (p.resume.run setting tokens).told = (p.run setting tokens).told := by
  rcases hrun : p.run setting tokens with ⟨e | a, errors, rest⟩
  · rw [run_resume_of_error hrun]
    rfl
  · rw [run_resume_of_ok hrun]
    rfl

theorem AgreesWith.resume {p q : Parser α} {together : Options → Options → Prop}
    (hp : p.AgreesWith q together marks) : p.resume.AgreesWith q.resume together marks := by
  intro options options' inputEnd tokens htogether
  rcases hp options options' inputEnd tokens htogether with heq | hparted
  · left
    unfold Parser.resume
    dsimp only
    rw [heq]
  · right
    rw [told_run_resume, told_run_resume]
    exact hparted

theorem Agrees.run_eq {p : Parser α} (h : p.Agrees fun _ => False) (options options' : Options)
    (inputEnd : Location) (tokens : List Token) :
    p.run ⟨options, inputEnd⟩ tokens = p.run ⟨options', inputEnd⟩ tokens := by
  rcases h options options' inputEnd tokens trivial with heq | hparted
  · exact heq
  · obtain ⟨-, e, -, -, -, -, hmarked, -⟩ := hparted.exists_first
    exact absurd hmarked not_false

end Parser

/-! ## Expressions and statements -/

open ScriptSyntax.Parser

theorem Expr.run_parser_eq (room : Nat) (options options' : Options) (inputEnd : Location)
    (tokens : List Token) :
    (parser room).run ⟨options, inputEnd⟩ tokens = (parser room).run ⟨options', inputEnd⟩ tokens :=
  (has_of_room (compositional_agrees fun _ => False) room).run_eq options options' inputEnd tokens

namespace Stmt

theorem told_semicolon_of_ne {tokens : List Token} (setting : Setting)
    (h : ∀ t ∈ tokens.head?, t.kind ≠ .semicolon) :
    (semicolon.run setting tokens).told = [⟨setting.site tokens, .noSemicolonAfterValue⟩] := by
  rw [run_semicolon_of_ne h]
  split <;> rfl

theorem agrees_semicolon : semicolon.Agrees (· = .noSemicolonAfterValue) := by
  intro options options' inputEnd tokens _
  by_cases hnext : ∀ t ∈ tokens.head?, t.kind ≠ .semicolon
  · right
    rw [told_semicolon_of_ne _ hnext, told_semicolon_of_ne _ hnext]
    exact .here rfl
  · left
    cases tokens with
    | nil => simp at hnext
    | cons t tokens =>
      rw [run_semicolon_of_eq (by simpa using hnext), run_semicolon_of_eq (by simpa using hnext)]

theorem compositional_agrees :
    Compositional (fun _ => True) fun _ p => p.Agrees (· = .noSemicolonAfterValue) where
  toCompositional := Parser.compositional_agrees _
  semicolon := agrees_semicolon
  resume := AgreesWith.resume

end Stmt

/-! ## Streams -/

namespace TokenStream

theorem readExpression_eq (stream : TokenStream) (options options' : Options) :
    stream.readExpression options = stream.readExpression options' := by
  unfold readExpression read
  rw [Expr.run_parser_eq maxNesting options options']

/-- A program is read the same under any two options, or the errors part at a missing semicolon. -/
theorem readProgram_eq_or_parted (stream : TokenStream) (options options' : Options) :
    let program := (stream.readProgram options).1
    (program = (stream.readProgram options').1 ∧
      ∀ e ∈ program.errors, e.cause ≠ .noSemicolonAfterValue) ∨
    PartedAt (· = .noSemicolonAfterValue) program.errors (stream.readProgram options').1.errors := by
  intro reading
  have hprogram : program.Agrees (· = .noSemicolonAfterValue) :=
    Stmt.compositional_agrees.collectUntil (Stmt.advances_of_room maxNesting)
      (Stmt.has_of_room Stmt.compositional_agrees maxNesting)
  rcases hprogram options options' stream.inputEnd stream.tokens trivial with heq | hparted
  · have hrun := run_program stream options'
    rw [← heq] at hrun
    have hreading : reading = (stream.readProgram options').1 := by
      unfold reading
      rw [readProgram_of_run hrun]
    by_cases hmarked : ∃ e ∈ reading.errors, e.cause = .noSemicolonAfterValue
    · right
      rw [← hreading]
      exact .self_of_marked hmarked
    · exact .inl ⟨hreading, by simpa using hmarked⟩
  · rw [run_program, run_program] at hparted
    exact .inr hparted

theorem noSemicolonAfterValue_iff (cause : SyntaxCause) :
    cause = .noSemicolonAfterValue ↔ cause.message = "Expect ';' after value." := by
  cases cause <;> decide

/-- Up to the first missing semicolon behind a value, a program is read the same under the strict options
and without them, and an expression always is. -/
theorem readProgram_strict (tokens : List Token) :
    let lenient := ((ofTokens tokens).readProgram {}).1
    let strict := ((ofTokens tokens).readProgram .strict).1
    ((∀ e ∈ lenient.errors ++ strict.errors, e.cause.message ≠ "Expect ';' after value.") →
      lenient = strict) ∧
    ((∃ e ∈ lenient.errors ++ strict.errors, e.cause.message = "Expect ';' after value.") →
      ∃ front e more more', lenient.errors = front ++ e :: more ∧
        strict.errors = front ++ e :: more' ∧ e.cause.message = "Expect ';' after value." ∧
        ∀ e ∈ front, e.cause.message ≠ "Expect ';' after value.") ∧
    (lenient.errors = [] ↔ strict.errors = []) ∧
    (lenient.errors = [] → lenient.value = strict.value) ∧
    lenient.errors.head? = strict.errors.head? ∧
    (ofTokens tokens).readExpression {} = (ofTokens tokens).readExpression .strict := by
  intro lenient strict
  have hexpression := readExpression_eq (ofTokens tokens) {} .strict
  rcases readProgram_eq_or_parted (ofTokens tokens) {} .strict with ⟨heq, hnone⟩ | hparted
  · change lenient = strict at heq
    rw [← heq]
    refine ⟨fun _ => rfl, ?_, Iff.rfl, fun _ => rfl, rfl, hexpression⟩
    rintro ⟨e, he, hmessage⟩
    rw [List.mem_append, or_self] at he
    exact absurd ((noSemicolonAfterValue_iff _).2 hmessage) (hnone e he)
  · obtain ⟨front, e, more, more', hlenient, hstrict, he, hfront⟩ := hparted.exists_first
    change lenient.errors = _ at hlenient
    change strict.errors = _ at hstrict
    rw [hlenient, hstrict]
    simp only [noSemicolonAfterValue_iff] at he hfront
    refine ⟨fun hnone => absurd he (hnone e (by simp)), ?_, by simp, by simp, ?_, hexpression⟩
    · intro _
      exact ⟨front, e, more, more', rfl, rfl, he, hfront⟩
    · cases front <;> rfl

/-- A number without its semicolon in front of a printed value. -/
def numberAndPrint : List Token :=
  Token.ofKinds [.number, .printKeyword, .nilKeyword, .semicolon, .endOfInput]

theorem readProgram_strict_of_number_and_print :
    ((ofTokens numberAndPrint).readProgram {}).1.value.length = 2 ∧
    ((ofTokens numberAndPrint).readProgram .strict).1.value = [] ∧
    (∃ front e more more',
      ((ofTokens numberAndPrint).readProgram {}).1.errors = front ++ e :: more ∧
      ((ofTokens numberAndPrint).readProgram .strict).1.errors = front ++ e :: more' ∧
      e.cause.message = "Expect ';' after value." ∧
      ∀ e ∈ front, e.cause.message ≠ "Expect ';' after value.") ∧
    ((ofTokens numberAndPrint.tail).readProgram {}).1 =
      ((ofTokens numberAndPrint.tail).readProgram .strict).1 := by
  refine ⟨rfl, rfl, ?_, ?_⟩
  · exact (readProgram_strict numberAndPrint).2.1 ⟨_, List.mem_cons_self, rfl⟩
  · exact (readProgram_strict numberAndPrint.tail).1 fun e he => absurd he List.not_mem_nil

end TokenStream

end ScriptSyntax
