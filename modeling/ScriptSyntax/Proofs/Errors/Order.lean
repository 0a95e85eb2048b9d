import ScriptSyntax.Proofs.Errors.Notices
/-! # In which order errors are told of

They come in the order of their places, but for those at an equals sign, which are told of once what
is behind the sign was read. Where a declaration is dropped for an error, all later ones are behind
it.
-/

namespace ScriptSyntax

variable {α β : Type}

/-! ## Parsers -/

namespace Parser

/-- There are notices for what a parser tells of and for what the same parser with marks does, on
all rows of all inputs. -/
def Notes (p p' : Parser α) (dropping : Bool) (mark : SyntaxError → SyntaxError) : Prop :=
  ∀ (input : Input) (options : Options) (ahead : List Token), ahead <:+ input.row →
    (p.run ⟨options, input.eof.location⟩ ahead).Notes (p'.run ⟨options, input.eof.location⟩ ahead)
      input dropping mark ahead

variable {dropping : Bool} {mark : SyntaxError → SyntaxError}

theorem Notes.bind {p p' : Parser α} {f f' : α → Parser β} (hp : p.Notes p' dropping mark)
    (hf : ∀ a, (f a).Notes (f' a) dropping mark) : (p >>= f).Notes (p' >>= f') dropping mark := by
  intro input options ahead hahead
  have hsuffix := p.rest_suffix ⟨options, input.eof.location⟩ ahead
  exact (hp input options ahead hahead).andThen hsuffix
    (fun a => hf a input options _ (hsuffix.trans hahead)) fun a => (f a).rest_suffix _ _

theorem notes_onNext {choose choose' : TokenKind → Option (Token → Parser α)}
    {otherwise otherwise' : Parser α}
    (hchoose : ∀ kind, Option.Rel (fun p p' => ∀ t, (p t).Notes (p' t) dropping mark) (choose kind)
      (choose' kind)) (hotherwise : otherwise.Notes otherwise' dropping mark) :
    (onNext choose otherwise).Notes (onNext choose' otherwise') dropping mark := by
  intro input options ahead hahead
  cases ahead with
  | nil => exact hotherwise input options [] hahead
  | cons t ahead =>
    have hrelated := hchoose t.kind
    rcases hkind : choose t.kind with _ | p <;> rcases hkind' : choose' t.kind with _ | p' <;>
      rw [hkind, hkind'] at hrelated
    · rw [run_onNext_of_eq_none hkind, run_onNext_of_eq_none hkind']
      exact hotherwise input options (t :: ahead) hahead
    · contradiction
    · contradiction
    · rw [run_onNext_of_eq_some hkind, run_onNext_of_eq_some hkind']
      cases hrelated with
      | some hp => exact (hp t input options ahead ((List.suffix_cons t ahead).trans hahead)).cons

theorem notes_pure (a : α) : (pure a : Parser α).Notes (pure a) dropping mark :=
  fun _ _ _ _ => .quiet (by simp)

theorem notes_fail {cause : SyntaxCause} (hcause : cause ≠ .badAssignmentTarget) :
    (fail cause : Parser α).Notes (fail cause) dropping mark := by
  intro input options ahead hahead
  refine .quiet fun e he => ?_
  obtain rfl := Except.error.inj he
  exact ⟨hcause, Input.notice_error hahead options cause true⟩

theorem Notes.plain {p : Parser α} (h : p.Notes p false id) (mark : SyntaxError → SyntaxError) :
    p.Notes p true mark := by
  intro input options ahead hahead
  obtain ⟨notices, hnoted, hdrops⟩ := h input options ahead hahead
  refine ⟨notices, { hnoted with marked_eq := ?_ }, nofun⟩
  rw [hnoted.errors_eq]
  refine List.map_congr_left fun n hn => ?_
  simp [Notice.marked, hdrops rfl n hn]

theorem accounted_notes : Accounted fun _ _ _ p => p.Notes p false id where
  pure a _ := notes_pure a
  nextIs _ _ _ _ _ _ := .quiet (by simp)
  fail hcause _ _ := notes_fail hcause
  reportNext hcause _ _ _ _ hahead := .next hcause hahead List.suffix_rfl
  onNext {_ _ _ choose _} hchoose hotherwise := by
    refine notes_onNext (fun kind => ?_) hotherwise
    rcases hkind : choose kind with _ | p
    · exact .none
    · exact .some (hchoose kind p hkind)
  bind hp _ hf := hp.bind hf
  relax h _ _ := h
  limit h input options ahead hahead := by
    obtain ⟨q, hq, heq⟩ := h ahead.length
    rw [← heq _ ahead (Nat.le_refl _)]
    exact hq input options ahead hahead

end Parser

namespace Expr

open ScriptSyntax.Parser

theorem notes_restOfExpression {inside : Parser Expr} (hinside : inside.Notes inside false id)
    (left : Expr) :
    (restOfExpression left inside).Notes (restOfExpression left inside) false id := by
  intro input options ahead hahead
  cases ahead with
  | nil => exact notes_pure left input options [] hahead
  | cons t ahead =>
    by_cases hkind : t.kind = .equal
    · have hbehind := (List.suffix_cons t ahead).trans hahead
      have hinside := hinside input options ahead hbehind
      rw [run_restOfExpression_of_eq hkind]
      rcases hrun : inside.run ⟨options, input.eof.location⟩ ahead with ⟨e | value, errors, rest⟩
      all_goals rw [hrun] at hinside
      · exact hinside.cons
      · obtain ⟨notices, hnoted, hdrops⟩ := hinside
        rw [Outcome.andThen_ok]
        unfold assign
        split
        · rw [run_pure, Outcome.behind, List.append_nil]
          exact Outcome.Notes.cons ⟨notices, hnoted.ok _, hdrops⟩
        · have hnone := hdrops rfl
          refine ⟨_, hnoted.concat_target hahead hkind hnone (suffix_of_run hrun) left, fun _ => ?_⟩
          exact List.forall_mem_append.2 ⟨hnone, by simp⟩
    · rw [run_restOfExpression_of_ne hkind]
      exact .quiet (by simp)

theorem accounted_notes : Accounted fun _ _ _ p => p.Notes p false id where
  toAccounted := Parser.accounted_notes
  restOfExpression := notes_restOfExpression

end Expr

namespace Parser

variable {mark : SyntaxError → SyntaxError} {p p' : Parser α}

/-! ## Declarations -/

theorem Notes.resume (h : p.Notes p' true mark) :
    p.resume.Notes (p'.resumeMarking mark) true mark := by
  intro input options ahead hahead
  obtain ⟨notices, hnoted, -⟩ := h input options ahead hahead
  have hrun' := hnoted.eq
  rcases hrun : p.run ⟨options, input.eof.location⟩ ahead with ⟨e | a, errors, rest⟩
  all_goals
    rw [hrun] at hnoted hrun'
    rw [hrun'] at hnoted
  · rw [run_resume_of_error hrun, run_resumeMarking_of_error hrun']
    have hrest := suffix_of_run hrun
    exact ⟨_, hnoted.dropped hrest (hrest.trans hahead) none, nofun⟩
  · rw [run_resume_of_ok hrun, run_resumeMarking_of_ok hrun']
    exact ⟨notices, hnoted.ok (some a), nofun⟩

theorem exists_notices_collectUntil (stops : TokenKind → Bool) {item item' : Parser (Option α)}
    (hadvances : item.Advances) (hadvances' : item'.Advances) (hnever : item.NeverStops)
    (hitem : item.Notes item' true mark) (input : Input) (options : Options)
    (ahead : List Token) (hahead : ahead <:+ input.row) :
    let setting : Setting := ⟨options, input.eof.location⟩
    let all := (collectUntil stops item).run setting ahead
    ∃ notices, all.Noted ((collectUntil stops item').run setting ahead) input mark ahead notices ∧
      ∀ count, let front := (collectUpTo stops item count).run setting ahead
        front.errors <+: all.errors ∧
          Notice.PartedAt (input.placeOf front.rest) front.errors.length notices := by
  intro setting
  induction hn : ahead.length using Nat.strongRecOn generalizing ahead with
  | _ n ih =>
  by_cases hstop : ∀ t ∈ ahead.head?, stops t.kind = true
  · rw [run_collectUntil_of_stop hadvances setting hstop,
      run_collectUntil_of_stop hadvances' setting hstop]
    refine ⟨[], ⟨rfl, rfl, rfl, rfl, .nil, by simp⟩, fun count => ?_⟩
    rw [run_collectUpTo_of_stop count setting hstop]
    exact ⟨List.prefix_rfl, by simp, by simp⟩
  · cases ahead with
    | nil => simp at hstop
    | cons t ahead =>
    have hgo : stops t.kind = false := by simpa using hstop
    -- The first item, with marks and without.
    obtain ⟨found, told, left, hfound⟩ := hnever setting (t :: ahead)
    obtain ⟨first, hfirst, -⟩ := hitem input options (t :: ahead) hahead
    rw [hfound] at hfirst
    have hfound' := hfirst.eq
    -- The others.
    have hleft := suffix_of_run hfound
    have hlt := hadvances.length_lt_of_run hfound
    rw [hn] at hlt
    obtain ⟨more, hmore, hparted⟩ := ih _ hlt left (hleft.trans hahead) rfl
    have hall : (collectUntil stops item).NeverStops := neverStops_collectUntil hadvances hnever
    obtain ⟨values, errors, rest, hvalues⟩ := hall setting left
    rw [hvalues] at hmore hparted
    have hvalues' := hmore.eq
    rw [hvalues'] at hmore
    -- Together.
    rw [run_collectUntil_of_item hadvances hgo hfound hvalues,
      run_collectUntil_of_item hadvances' hgo hfound' hvalues']
    have hbehind := hmore.behind hfirst.errors_eq hfirst.marked_eq hfirst.inOrder hleft
      (suffix_of_run hvalues)
    refine ⟨first ++ more, hbehind.ok _, fun count => ?_⟩
    cases count with
    | zero => exact ⟨List.nil_prefix, hbehind.inOrder.partedAt_start⟩
    | succ count =>
      obtain ⟨hfront, hparted⟩ := hparted count
      obtain ⟨herrors, hrest⟩ := run_collectUpTo_of_item count hgo hfound
      have hlength : told.length = first.length := by
        simpa using congrArg List.length hfirst.errors_eq
      dsimp only
      rw [herrors, hrest, List.length_append, hlength]
      exact ⟨(List.prefix_append_right_inj told).2 hfront, hparted.append hfirst.inOrder
        (Input.placeOf_le_placeOf ((collectUpTo stops item count).rest_suffix setting left))⟩

end Parser

namespace Stmt

open ScriptSyntax.Parser

variable {mark : SyntaxError → SyntaxError}

theorem notes_semicolon (a : α) :
    (semicolon >>= fun _ => pure a).Notes (semicolon >>= fun _ => pure a) false id := by
  intro input options ahead hahead
  by_cases hnext : ∀ t ∈ ahead.head?, t.kind ≠ .semicolon
  · rw [run_bind, run_semicolon_of_ne hnext]
    split
    · exact notes_fail (by decide) input options ahead hahead
    · refine .next (by decide) hahead ?_
      dsimp only
      split
      · exact List.suffix_rfl
      · exact dropStatement_suffix ahead
  · cases ahead with
    | nil => simp at hnext
    | cons t ahead =>
      rw [run_bind, run_semicolon_of_eq (by simpa using hnext)]
      exact (notes_pure a input options ahead ((List.suffix_cons t ahead).trans hahead)).cons

theorem accounted_notes (mark : SyntaxError → SyntaxError) :
    Accounted mark (fun _ _ _ p => p.Notes p false id)
      (fun _ _ _ p p' => p.Notes p' true mark) where
  expr := Expr.accounted_notes
  semicolon := notes_semicolon
  plain h := h.plain mark
  onNext := notes_onNext
  bind hp _ hf := hp.bind hf
  relax h _ _ := h
  declarations {p p'} hadvances hadvances' h stops input options ahead hahead := by
    obtain ⟨notices, hnoted, -⟩ := exists_notices_collectUntil stops hadvances
      hadvances'.resumeMarking (neverStops_resume p) h.resume input options ahead hahead
    exact ⟨notices, hnoted, nofun⟩

end Stmt

namespace TokenStream

open ScriptSyntax.Parser

/-- What `mark` is applied to when a program is read are the errors that drop a declaration. -/
def markedProgram (mark : SyntaxError → SyntaxError) : Parser (List Stmt) :=
  collectUntil (fun _ => false) (Stmt.marking mark maxNesting)

theorem markedProgram_id : markedProgram id = program := by
  unfold markedProgram
  rw [Stmt.marking_id]
  rfl

section input

variable {input : Input} {stream : TokenStream}

theorem exists_notices_readExpression (hstream : stream.tokens <:+ input.row)
    (hend : stream.inputEnd = input.eof.location) (options : Options) :
    let expression := stream.readExpression options
    ∃ notices, Notice.InOrder input.tokens (input.placeOf stream.tokens)
        (input.placeOf expression.2.tokens) notices ∧
      expression.1.errors.map some = notices.map (·.error input.tokens) ∧
      ∀ n ∈ notices, n.drops = false := by
  have hnotes := Expr.accounted_of_room Expr.accounted_notes maxNesting
  obtain ⟨notices, hnoted, hdrops⟩ := hnotes input options stream.tokens hstream
  unfold readExpression read
  rw [hend]
  rcases hrun : (Expr.parser maxNesting).run ⟨options, input.eof.location⟩ stream.tokens with
    ⟨e | a, errors, rest⟩
  all_goals rw [hrun] at hnoted
  · -- The error that stopped it comes last.
    obtain ⟨hcause, herror⟩ := hnoted.stops e rfl
    have hlast : Notice.InOrder input.tokens (input.placeOf rest) (input.placeOf rest)
        [⟨input.placeOf rest, e.cause, false⟩] :=
      .here hcause (Nat.le_refl _) fun hinside => absurd hinside (Notice.not_dropsInside rfl)
    exact ⟨notices ++ [⟨input.placeOf rest, e.cause, false⟩],
      hnoted.inOrder.append hlast (Input.placeOf_le_placeOf (suffix_of_run hrun)) (Nat.le_refl _),
      Notice.map_concat_eq hnoted.errors_eq herror,
      List.forall_mem_append.2 ⟨hdrops rfl, by simp⟩⟩
  · exact ⟨notices, hnoted.inOrder, hnoted.errors_eq, hdrops rfl⟩

theorem exists_notices_program (hstream : stream.tokens <:+ input.row)
    (hend : stream.inputEnd = input.eof.location) (options : Options)
    (mark : SyntaxError → SyntaxError) :
    let setting : Setting := ⟨options, stream.inputEnd⟩
    let all := program.run setting stream.tokens
    ∃ notices, all.Noted ((markedProgram mark).run setting stream.tokens) input mark stream.tokens
        notices ∧
      ∀ count,
        let front := (collectUpTo (fun _ => false) (Stmt.parser maxNesting) count).run setting
          stream.tokens
        front.errors <+: all.errors ∧
          Notice.PartedAt (input.placeOf front.rest) front.errors.length notices := by
  rw [hend]
  have hdeclared := Stmt.accounted_declared_of_room (Stmt.accounted_notes mark) maxNesting
  exact exists_notices_collectUntil (fun _ => false) (Stmt.advances_of_room maxNesting)
    (Stmt.advances_marking mark maxNesting) (neverStops_resume _) hdeclared.resume input options
    stream.tokens hstream

end input

/-- Errors are at tokens that were read, or at the one where the reading ended. They come in the
order of these tokens, but for those at an equals sign, and those of a declaration all in front of
those of later ones. What is told of behind an error for which a declaration is dropped is behind its
token too, so that for one token at most one declaration is dropped. -/
theorem errors_inOrder (tokens : List Token) (options : Options) (entries : List Entry) :
    let stream := (ofTokens tokens).after options entries
    let row := closed tokens
    let setting : Setting := ⟨options, stream.inputEnd⟩
    let start := position tokens stream
    let expression := stream.readExpression options
    let program := stream.readProgram options
    (∃ notices, Notice.InOrder row start (position tokens expression.2) notices ∧
      expression.1.errors.map some = notices.map (·.error row) ∧
      ∀ n ∈ notices, n.drops = false) ∧
    ∀ mark, ∃ notices, Notice.InOrder row start (position tokens program.2) notices ∧
      program.1.errors.map some = notices.map (·.error row) ∧
      ((markedProgram mark).run setting stream.tokens).errors.map some =
        notices.map (·.marked row mark) ∧
      (∀ count,
        let front := (collectUpTo (fun _ => false) (Stmt.parser maxNesting) count).run setting
          stream.tokens
        front.errors <+: program.1.errors ∧
          Notice.PartedAt (position tokens { stream with tokens := front.rest })
            front.errors.length notices) ∧
      ∀ place t, row[place]? = some t → t.kind ≠ .endOfInput →
        notices.countP (fun n => n.drops && n.place == place) ≤ 1 := by
  intro stream row setting start expression program
  obtain ⟨input, hinput, htokens⟩ := exists_input tokens
  have hrow : (ofTokens tokens).tokens = input.row := by rw [htokens]; rfl
  have hsuffix : stream.tokens <:+ (ofTokens tokens).tokens := after_suffix entries
  have hend : stream.inputEnd = (ofTokens tokens).inputEnd := after_inputEnd entries
  have hposition (left : TokenStream) : position tokens left = input.placeOf left.tokens := by
    rw [position, hrow]
    rfl
  rw [hrow] at hsuffix
  rw [htokens] at hend
  have hclosed : row = input.tokens := hinput.symm
  rw [hclosed]
  simp only [start, hposition]
  refine ⟨exists_notices_readExpression hsuffix hend options, fun mark => ?_⟩
  obtain ⟨notices, hnoted, hparted⟩ := exists_notices_program hsuffix hend options mark
  rw [run_program] at hnoted hparted
  have hinOrder := hnoted.inOrder
  refine ⟨notices, ?_, hnoted.errors_eq, hnoted.marked_eq, hparted, ?_⟩
  · rw [readProgram_tokens]
    exact hinOrder
  · intro place t ht hkind
    exact hinOrder.countP_le_one ht hkind

/-- Assignments to a value, one in the other, and a stray brace. -/
def assignedValues : List Token :=
  Token.ofKinds [.number, .equal, .nilKeyword, .equal, .nilKeyword, .semicolon, .rightBrace,
    .endOfInput]

theorem errors_inOrder_of_assignedValues :
    let program := (ofTokens assignedValues).readProgram {}
    program.1.errors.map (·.cause) = [.badAssignmentTarget, .badAssignmentTarget, .noExpression] ∧
      ∃ notices, program.1.errors.map some = notices.map (·.error assignedValues) ∧
        Notice.InOrder assignedValues 0 7 notices ∧
        Notice.PartedAt 6 2 notices ∧
        notices.countP (fun n => n.drops && n.place == 6) ≤ 1 := by
  intro program
  obtain ⟨notices, hinOrder, herrors, -, hparted, hcount⟩ :=
    (errors_inOrder assignedValues {} []).2 id
  exact ⟨rfl, notices, herrors, hinOrder, (hparted 1).2, hcount 6 _ rfl (by decide)⟩

end TokenStream

end ScriptSyntax
