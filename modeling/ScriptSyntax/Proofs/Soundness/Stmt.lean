import ScriptSyntax.Proofs.Grammar.Stmt
import ScriptSyntax.Proofs.Progress
/-! # What statements are made of

Each parser for statements makes statements that the grammar derives, out of tokens that it read, and
out of all of them where it tells of no error. What is broken is dropped as a whole.
-/

namespace ScriptSyntax.Stmt

open ScriptSyntax.Parser

/-- Statements as a parser makes them out of the tokens of `read`, with `errors` on the way. They nest
less deep than `limit`. -/
structure AllMadeOf (ss : List Stmt) (limit : Nat) (read : List Token)
    (errors : List SyntaxError) : Prop where
  derivable : ∀ s ∈ ss, s.Derivable
  nesting_lt : ∀ s ∈ ss, s.nesting < limit
  kept_sublist : (keptByAll ss).Sublist read
  write : errors = [] → WritesAll ss read

/-- A statement as a parser makes it. -/
structure MadeOf (s : Stmt) (limit : Nat) (read : List Token) (errors : List SyntaxError) :
    Prop where
  derivable : s.Derivable
  nesting_lt : s.nesting < limit
  kept_sublist : s.kept.Sublist read
  writes : errors = [] → s.Writes read

/-- A statement that may be a branch, in front of `rest`. An `else` behind it belongs to another
conditional. -/
structure BranchOf (s : Stmt) (limit : Nat) (read : List Token) (errors : List SyntaxError)
    (rest : List Token) : Prop extends MadeOf s limit read errors where
  form : s.isVariable = false
  closed : s.endsOpen = true → ∀ t ∈ rest.head?, t.kind ≠ .elseKeyword

variable {limit : Nat} {read rest : List Token} {errors : List SyntaxError}

theorem AllMadeOf.none (read : List Token) (h : errors = [] → read = []) :
    AllMadeOf [] limit read errors where
  derivable := by simp
  nesting_lt := by simp
  kept_sublist := List.nil_sublist read
  write hnil := by
    rw [h hnil]
    exact .nil

theorem AllMadeOf.one {s : Stmt} (h : s.MadeOf limit read errors) :
    AllMadeOf [s] limit read errors where
  derivable := by simpa using h.derivable
  nesting_lt := by simpa using h.nesting_lt
  kept_sublist := by simpa [keptByAll] using h.kept_sublist
  write hnil := by simpa using WritesAll.cons (h.writes hnil) .nil

theorem AllMadeOf.append {ss ss' : List Stmt} {read' : List Token} {errors' : List SyntaxError}
    (h : AllMadeOf ss limit read errors) (h' : AllMadeOf ss' limit read' errors') :
    AllMadeOf (ss ++ ss') limit (read ++ read') (errors ++ errors') where
  derivable := by simpa [or_imp, forall_and] using ⟨h.derivable, h'.derivable⟩
  nesting_lt := by simpa [or_imp, forall_and] using ⟨h.nesting_lt, h'.nesting_lt⟩
  kept_sublist := by
    rw [keptByAll_append]
    exact h.kept_sublist.append h'.kept_sublist
  write hnil := by
    obtain ⟨hnil, hnil'⟩ := List.append_eq_nil_iff.1 hnil
    exact (h.write hnil).append (h'.write hnil')

/-- The parser makes all that it takes into such statements. -/
def Makes (p : Parser Stmt) (limit : Nat) : Prop :=
  ∀ ⦃setting read rest s errors⦄, p.Takes setting read rest s errors →
    s.BranchOf limit read errors rest

/-- The parser makes all that it takes into a statement or nothing. -/
def Finds (p : Parser (Option Stmt)) (limit : Nat) : Prop :=
  ∀ ⦃setting read rest found errors⦄, p.Takes setting read rest found errors →
    AllMadeOf found.toList limit read errors

/-- The parsers for what stands deeper make it into statements, with the token in front. -/
structure Deeper.MakesBelow (deeper : Deeper) (limit : Nat) : Prop where
  conditional : ∀ ⦃setting keyword read rest s errors⦄, keyword.kind = .ifKeyword →
    deeper.conditional.Takes setting read rest s errors →
    s.BranchOf limit (keyword :: read) errors rest
  block : ∀ ⦃setting opening read rest s errors⦄, opening.kind = .leftBrace →
    deeper.block.Takes setting read rest s errors →
    s.BranchOf limit (opening :: read) errors rest

variable {setting : Setting} {expression : Parser Expr} {s : Stmt}

theorem print_branchOf (hexpression : Expr.Makes expression 0 limit) {keyword : Token}
    (hkeyword : keyword.kind = .printKeyword)
    (h : (restOfPrint expression).Takes setting read rest s errors) :
    s.BranchOf limit (keyword :: read) errors rest := by
  obtain ⟨value, ts, semicolon, rfl, rfl, hkind, hvalue⟩ := takes_restOfPrint_iff.1 h
  have hmade := hexpression hvalue
  exact {
    derivable := .print hmade.derivable
    nesting_lt := hmade.nesting_lt
    kept_sublist := (hmade.kept_sublist.trans (List.sublist_append_left ts _)).cons keyword
    writes := fun hnil => .print hkeyword (hmade.writes hnil) hkind
    form := rfl
    closed := fun hopen => by contradiction }

theorem bareExpression_branchOf (hexpression : Expr.Makes expression 0 limit)
    (h : (bareExpression expression).Takes setting read rest s errors) :
    s.BranchOf limit read errors rest := by
  obtain ⟨value, ts, us, told, last, rfl, rfl, rfl, hvalue, hlast⟩ := takes_bareExpression_iff.1 h
  have hmade := hexpression hvalue
  refine {
    derivable := .expression hmade.derivable
    nesting_lt := hmade.nesting_lt
    kept_sublist := hmade.kept_sublist.trans (List.sublist_append_left ts us)
    writes := fun hnil => ?_
    form := rfl
    closed := fun hopen => by contradiction }
  obtain ⟨hnil, hnil'⟩ := List.append_eq_nil_iff.1 hnil
  rcases takes_semicolon_iff.1 hlast with ⟨semicolon, hkind, rfl, -⟩ | ⟨-, -, rfl, -⟩
  · exact .expression (hmade.writes hnil) hkind
  · contradiction

theorem makes_statement (hexpression : Expr.Makes expression 0 limit) {deeper : Deeper}
    (hdeeper : deeper.MakesBelow limit) : Makes (statement expression deeper) limit := by
  intro setting read rest s errors hs
  rcases takes_statement_iff.1 hs with ⟨t, more, hkind, rfl, h⟩ | ⟨t, more, hkind, rfl, h⟩ |
    ⟨t, more, hkind, rfl, h⟩ | ⟨-, h⟩
  · exact hdeeper.conditional hkind h
  · exact print_branchOf hexpression hkind h
  · exact hdeeper.block hkind h
  · exact bareExpression_branchOf hexpression h

theorem variable_madeOf (hexpression : Expr.Makes expression 0 (limit + 1)) {keyword : Token}
    (hkeyword : keyword.kind = .varKeyword)
    (h : (restOfVariable expression).Takes setting read rest s errors) :
    s.MadeOf (limit + 1) (keyword :: read) errors := by
  rcases takes_restOfVariable_iff.1 h with ⟨name, semicolon, hname, hsemicolon, rfl, rfl, rfl⟩ |
    ⟨name, equals, value, ts, semicolon, hname, hequals, hsemicolon, rfl, rfl, hvalue⟩
  · exact {
      derivable := .var hname (by simp)
      nesting_lt := Nat.succ_pos limit
      kept_sublist := ((List.nil_sublist [semicolon]).cons_cons name).cons keyword
      writes := fun _ => .varOnly hkeyword hsemicolon }
  · have hmade := hexpression hvalue
    exact {
      derivable := .var hname (by simpa using hmade.derivable)
      nesting_lt := hmade.nesting_lt
      kept_sublist :=
        (((hmade.kept_sublist.trans (List.sublist_append_left ts _)).cons equals).cons_cons
          name).cons keyword
      writes := fun hnil => .varWith hkeyword hequals (hmade.writes hnil) hsemicolon }

theorem finds_declaration (hexpression : Expr.Makes expression 0 (limit + 1))
    {statement : Parser Stmt} (hstatement : Makes statement (limit + 1)) :
    Finds (declaration expression statement) (limit + 1) := by
  intro setting read rest found errors h
  unfold declaration at h
  rcases takes_resume_iff.1 h with ⟨s, rfl, hs⟩ | ⟨told, e, left, rfl, rfl, -, -⟩
  · rcases takes_variableOrStatement_iff.1 hs with ⟨t, more, hkind, rfl, hvar⟩ | ⟨-, hs⟩
    · exact .one (variable_madeOf hexpression hkind hvar)
    · exact .one (hstatement hs).toMadeOf
  · exact .none read (by simp)

theorem collectUntil_allMadeOf {stops : TokenKind → Bool} {item : Parser (Option Stmt)}
    (hitem : Finds item limit) (hadvances : item.Advances) {ss : List Stmt}
    (h : (collectUntil stops item).Takes setting read rest ss errors) :
    AllMadeOf ss limit read errors := by
  refine (h.collectUntil_invariant hadvances (fun ss read errors => AllMadeOf ss limit read errors)
    (.none [] fun _ => rfl) ?_).1
  intro found first earlier rest ss later errors _ hfound hss
  exact (hitem hfound).append hss

theorem block_branchOf {declaration : Parser (Option Stmt)}
    (hdeclaration : Finds declaration (limit + 1)) (hadvances : declaration.Advances)
    {opening : Token} (hopening : opening.kind = .leftBrace)
    (h : (restOfBlock declaration).Takes setting read rest s errors) :
    s.BranchOf (limit + 2) (opening :: read) errors rest := by
  obtain ⟨statements, ts, closing, rfl, rfl, hclosing, hall⟩ := takes_restOfBlock_iff.1 h
  have hmade := collectUntil_allMadeOf hdeclaration hadvances hall
  have hnesting : nestingOfAll statements ≤ limit :=
    nestingOfAll_le_iff.2 fun s hs => Nat.le_of_lt_succ (hmade.nesting_lt s hs)
  exact {
    derivable := .block hmade.derivable
    nesting_lt := Nat.succ_lt_succ (Nat.lt_succ_of_le hnesting)
    kept_sublist := (hmade.kept_sublist.trans (List.sublist_append_left ts _)).cons opening
    writes := fun hnil => .block hopening (hmade.write hnil) hclosing
    form := rfl
    closed := fun hopen => by contradiction }

section conditional

variable {keyword opening closing : Token} {condition : Expr} {branch : Stmt} {ts us : List Token}
  {es es' : List SyntaxError}

theorem BranchOf.ifThen (hkeyword : keyword.kind = .ifKeyword) (hopening : opening.kind = .leftParen)
    (hclosing : closing.kind = .rightParen) (hc : condition.MadeOf 0 limit ts es)
    (hb : branch.BranchOf limit us es' rest) (hnext : ∀ t ∈ rest.head?, t.kind ≠ .elseKeyword) :
    (ifThen condition branch).BranchOf (limit + 1) (keyword :: opening :: ts ++ closing :: us)
      (es ++ es') rest where
  derivable := .ifThen hc.derivable hb.derivable hb.form
  nesting_lt := by
    have := hc.nesting_lt
    have := hb.nesting_lt
    simp only [nesting]
    omega
  kept_sublist :=
    ((hc.kept_sublist.append (hb.kept_sublist.cons closing)).cons opening).cons keyword
  writes hnil := by
    obtain ⟨h, h'⟩ := List.append_eq_nil_iff.1 hnil
    exact .ifThen hkeyword hopening (hc.writes h) hclosing (hb.writes h')
  form := rfl
  closed := fun _ => hnext

/-- An alternative behind a branch is that of the conditional, since the branch is closed. -/
theorem BranchOf.ifElse {keyword' : Token} {alternative : Stmt} {vs : List Token}
    {es'' : List SyntaxError} (hkeyword : keyword.kind = .ifKeyword)
    (hopening : opening.kind = .leftParen) (hclosing : closing.kind = .rightParen)
    (hkeyword' : keyword'.kind = .elseKeyword) (hc : condition.MadeOf 0 limit ts es)
    (hb : branch.BranchOf limit us es' (keyword' :: vs ++ rest))
    (ha : alternative.BranchOf limit vs es'' rest) :
    (ifElse condition branch alternative).BranchOf (limit + 1)
      (keyword :: opening :: ts ++ closing :: us ++ keyword' :: vs) (es ++ (es' ++ es'')) rest where
  derivable := by
    have hclosed : branch.endsOpen = false := by
      cases hopen : branch.endsOpen with
      | false => rfl
      | true => exact absurd hkeyword' (hb.closed hopen keyword' rfl)
    exact .ifElse hc.derivable hb.derivable hb.form hclosed ha.derivable ha.form
  nesting_lt := by
    have := hc.nesting_lt
    have := hb.nesting_lt
    have := ha.nesting_lt
    simp only [nesting]
    omega
  kept_sublist := by
    have hbranches := (hb.kept_sublist.append (ha.kept_sublist.cons keyword')).cons closing
    have hkept := ((hc.kept_sublist.append hbranches).cons opening).cons keyword
    simpa [kept] using hkept
  writes hnil := by
    simp only [List.append_eq_nil_iff] at hnil
    exact .ifElse hkeyword hopening (hc.writes hnil.1) hclosing (hb.writes hnil.2.1) hkeyword'
      (ha.writes hnil.2.2)
  form := rfl
  closed := ha.closed

theorem conditional_branchOf (hexpression : Expr.Makes expression 0 limit)
    {statement : Parser Stmt} (hstatement : Makes statement limit)
    (hkeyword : keyword.kind = .ifKeyword)
    (h : (restOfConditional expression statement).Takes setting read rest s errors) :
    s.BranchOf (limit + 1) (keyword :: read) errors rest := by
  obtain ⟨opening, condition, ts, closing, branch, us, vs, es, es', es'', hopening, hclosing, rfl,
    rfl, hcondition, hbranch, hlast⟩ := takes_restOfConditional_iff.1 h
  have hc := hexpression hcondition
  have hb := hstatement hbranch
  rcases hlast with ⟨keyword', alternative, vs, hkeyword', rfl, rfl, halternative⟩ |
    ⟨hnext, rfl, rfl, rfl⟩
  · have ha := hstatement halternative
    simpa using BranchOf.ifElse hkeyword hopening hclosing hkeyword' hc hb ha
  · simpa using BranchOf.ifThen hkeyword hopening hclosing hc hb hnext

end conditional

theorem makesBelow_ofRoom (room : Nat) : (Deeper.ofRoom room).MakesBelow (room + 1) := by
  induction room with
  | zero =>
    exact ⟨fun _ _ _ _ _ _ _ h => absurd h not_takes_fail,
      fun _ _ _ _ _ _ _ h => absurd h not_takes_fail⟩
  | succ room ih =>
    have hexpression := Expr.makes_of_room room
    have hstatement := makes_statement hexpression ih
    have hdeclaration := finds_declaration hexpression hstatement
    have hadvances := advances_of_room room
    exact ⟨fun _ _ _ _ _ _ hkind h => conditional_branchOf hexpression hstatement hkind h,
      fun _ _ _ _ _ _ hkind h => block_branchOf hdeclaration hadvances hkind h⟩

theorem finds_of_room (room : Nat) : Finds (parser room) (room + 1) :=
  finds_declaration (Expr.makes_of_room room)
    (makes_statement (Expr.makes_of_room room) (makesBelow_ofRoom room))

end ScriptSyntax.Stmt
