import ScriptSyntax.Proofs.Parser.Expr
/-! # What expressions are made of

Each parser for expressions makes expressions that the grammar derives, out of tokens that it read,
and out of all of them where it tells of no error.
-/

namespace ScriptSyntax.Expr

open ScriptSyntax.Parser

/-- An expression as a parser makes it out of the tokens of `read`, with `errors` on the way. It holds
together at least as tight as `level` and nests less deep than `limit`. -/
structure MadeOf (e : Expr) (level limit : Nat) (read : List Token) (errors : List SyntaxError) :
    Prop where
  derivable : e.Derivable
  level_le : level ≤ e.rank
  nesting_lt : e.nesting < limit
  kept_sublist : e.kept.Sublist read
  writes : errors = [] → e.Writes read

/-- The parser makes all that it takes into such expressions. -/
def Makes (p : Parser Expr) (level limit : Nat) : Prop :=
  ∀ ⦃setting read rest e errors⦄, p.Takes setting read rest e errors →
    e.MadeOf level limit read errors

variable {level limit : Nat} {read : List Token} {errors : List SyntaxError}

namespace MadeOf

theorem of_le {e : Expr} {level' : Nat} (h : e.MadeOf level limit read errors)
    (hle : level' ≤ level) : e.MadeOf level' limit read errors :=
  { h with level_le := Nat.le_trans hle h.level_le }

theorem token {e : Expr} {t : Token} (hd : e.Derivable) (hrank : level ≤ e.rank)
    (hn : e.nesting = 0) (hkept : e.kept = [t]) (hw : e.Writes [t]) :
    e.MadeOf level (limit + 1) [t] [] where
  derivable := hd
  level_le := hrank
  nesting_lt := by omega
  kept_sublist := by simp [hkept]
  writes _ := hw

theorem combine {precedence : Precedence} {left right : Expr} {operator : Token}
    {read' : List Token} {errors' : List SyntaxError}
    (hop : Precedence.ofKind? operator.kind = some precedence)
    (hl : left.MadeOf precedence.rank limit read errors)
    (hr : right.MadeOf (precedence.rank + 1) limit read' errors') :
    (precedence.combine left operator right).MadeOf precedence.rank limit
      (read ++ operator :: read') (errors ++ errors') where
  derivable :=
    Precedence.derivable_combine hop hl.level_le hr.level_le hl.derivable hr.derivable
  level_le := Nat.le_of_eq (Precedence.rank_combine hop).symm
  nesting_lt := by
    rw [Precedence.nesting_combine]
    exact Nat.max_lt.2 ⟨hl.nesting_lt, hr.nesting_lt⟩
  kept_sublist := by
    rw [Precedence.kept_combine]
    exact hl.kept_sublist.append (hr.kept_sublist.cons_cons operator)
  writes h := by
    obtain ⟨h, h'⟩ := List.append_eq_nil_iff.1 h
    exact Precedence.writes_combine_iff.2 ⟨read, read', rfl, hl.writes h, hr.writes h'⟩

theorem grouping {inner : Expr} {opening closing : Token} (hopen : opening.kind = .leftParen)
    (h : inner.MadeOf 0 limit read errors) (hclose : closing.kind = .rightParen) :
    (Expr.grouping inner).MadeOf 9 (limit + 1) (opening :: read ++ [closing]) errors where
  derivable := .grouping h.derivable
  level_le := Nat.le_refl 9
  nesting_lt := Nat.succ_lt_succ h.nesting_lt
  kept_sublist := by
    have := (h.kept_sublist.cons opening).append (List.nil_sublist [closing])
    rwa [List.append_nil] at this
  writes hnil := .grouping hopen (h.writes hnil) hclose

theorem unary {operator : Token} {operand : Expr}
    (hop : operator.kind = .bang ∨ operator.kind = .minus)
    (h : operand.MadeOf 7 limit read errors) :
    (Expr.unary operator operand).MadeOf 7 (limit + 1) (operator :: read) errors where
  derivable := .unary hop h.level_le h.derivable
  level_le := Nat.le_refl 7
  nesting_lt := Nat.succ_lt_succ h.nesting_lt
  kept_sublist := h.kept_sublist.cons_cons operator
  writes hnil := .unary (h.writes hnil)

theorem assignment {target equals : Token} {value : Expr} {read' : List Token}
    {errors' : List SyntaxError} (htarget : (reference target).MadeOf level (limit + 1) read errors)
    (hequals : equals.kind = .equal) (hvalue : value.MadeOf 0 limit read' errors') :
    (Expr.assignment target value).MadeOf 0 (limit + 1) (read ++ equals :: read')
      (errors ++ errors') where
  derivable := by
    cases htarget.derivable with
    | reference hkind => exact .assignment hkind hvalue.derivable
  level_le := Nat.le_refl 0
  nesting_lt := Nat.succ_lt_succ hvalue.nesting_lt
  kept_sublist := htarget.kept_sublist.append (hvalue.kept_sublist.cons equals)
  writes hnil := by
    obtain ⟨h, h'⟩ := List.append_eq_nil_iff.1 hnil
    cases htarget.writes h with
    | reference => exact .assignment hequals (hvalue.writes h')

end MadeOf

/-- Arguments as a parser makes them out of the tokens of `read`, with `errors` on the way. -/
structure ArgumentsMadeOf (es : List Expr) (limit : Nat) (read : List Token)
    (errors : List SyntaxError) : Prop where
  derivable : ∀ e ∈ es, e.Derivable
  nesting_lt : ∀ e ∈ es, e.nesting < limit
  kept_sublist : (keptByArguments es).Sublist read
  write : errors = [] → WritesArguments es read

theorem ArgumentsMadeOf.none : ArgumentsMadeOf [] limit [] [] where
  derivable := by simp
  nesting_lt := by simp
  kept_sublist := List.Sublist.refl _
  write _ := .none

theorem ArgumentsMadeOf.one {e : Expr} (told : List SyntaxError)
    (h : e.MadeOf 0 limit read errors) : ArgumentsMadeOf [e] limit read (told ++ errors) where
  derivable := by simpa using h.derivable
  nesting_lt := by simpa using h.nesting_lt
  kept_sublist := by simpa [keptByArguments] using h.kept_sublist
  write hnil := .one (h.writes (List.append_eq_nil_iff.1 hnil).2)

theorem ArgumentsMadeOf.concat {es : List Expr} {e : Expr} {comma : Token} {read' : List Token}
    {errors' : List SyntaxError} (told : List SyntaxError)
    (hes : ArgumentsMadeOf es limit read errors) (hne : es ≠ []) (hcomma : comma.kind = .comma)
    (he : e.MadeOf 0 limit read' errors') :
    ArgumentsMadeOf (es ++ [e]) limit (read ++ comma :: read') (errors ++ (told ++ errors')) where
  derivable := by simpa [or_imp, forall_and] using ⟨hes.derivable, he.derivable⟩
  nesting_lt := by simpa [or_imp, forall_and] using ⟨hes.nesting_lt, he.nesting_lt⟩
  kept_sublist := by
    rw [keptByArguments_append]
    exact hes.kept_sublist.append (by simpa [keptByArguments] using he.kept_sublist.cons comma)
  write hnil := by
    simp only [List.append_eq_nil_iff] at hnil
    exact (hes.write hnil.1).concat hne hcomma (he.writes hnil.2.2)

theorem MadeOf.call {callee : Expr} {es : List Expr} {opening closing : Token}
    {read' : List Token} {errors' : List SyntaxError}
    (hcallee : callee.MadeOf 8 (limit + 1) read errors) (hopen : opening.kind = .leftParen)
    (hes : ArgumentsMadeOf es limit read' errors') (hclose : closing.kind = .rightParen) :
    (Expr.call callee es closing).MadeOf 8 (limit + 1) (read ++ opening :: (read' ++ [closing]))
      (errors ++ errors') where
  derivable := .call hclose hcallee.level_le hcallee.derivable hes.derivable
  level_le := Nat.le_refl 8
  nesting_lt := by
    have := nestingOfArguments_le_iff.2 hes.nesting_lt
    exact Nat.max_lt.2 ⟨hcallee.nesting_lt, Nat.lt_succ_of_le this⟩
  kept_sublist :=
    hcallee.kept_sublist.append ((hes.kept_sublist.append (List.Sublist.refl [closing])).cons opening)
  writes hnil := by
    obtain ⟨h, h'⟩ := List.append_eq_nil_iff.1 hnil
    have hcall : (Expr.call callee es closing).Writes _ :=
      .call (hcallee.writes h) hopen (hes.write h')
    simpa using hcall

/-! ## What each parser makes -/

/-- What stands deeper is made into expressions that nest less deep than `limit`. -/
structure Deeper.MakesBelow (deeper : Deeper) (limit : Nat) : Prop where
  operand : Makes deeper.operand 7 limit
  inside : Makes deeper.inside 0 limit

theorem makes_chain {precedence : Precedence} {operand : Parser Expr}
    (h : Makes operand (precedence.rank + 1) limit) :
    Makes (precedence.chain operand) precedence.rank limit := by
  intro setting read rest e errors he
  unfold Precedence.chain at he
  obtain ⟨ts, us, first, es, es', rfl, rfl, hfirst, hloop⟩ := takes_bind_iff.1 he
  have hinit := (h hfirst).of_le (Nat.le_succ precedence.rank)
  refine (hloop.foldWhile_invariant (fun e read errors => e.MadeOf precedence.rank limit read errors)
    hinit ?_).1
  intro left operator e before earlier read rest errors hop hleft hround
  obtain ⟨right, rfl, hright⟩ := takes_bind_pure_iff.1 hround
  exact hleft.combine (by simpa using hop) (h hright)

theorem makes_operation {operand : Parser Expr} (h : Makes operand 7 limit) :
    Makes (operation operand) 1 limit := by
  have hproduct : Makes (Precedence.product.chain operand) 6 limit := makes_chain h
  have hsum : Makes (Precedence.sum.chain _) 5 limit := makes_chain hproduct
  have hcomparison : Makes (Precedence.comparison.chain _) 4 limit := makes_chain hsum
  have hequality : Makes (Precedence.equality.chain _) 3 limit := makes_chain hcomparison
  have hconjunction : Makes (Precedence.conjunction.chain _) 2 limit := makes_chain hequality
  have hdisjunction : Makes (Precedence.disjunction.chain _) 1 limit := makes_chain hconjunction
  exact hdisjunction

variable {deeper : Deeper}

theorem makes_primary (h : deeper.MakesBelow limit) : Makes (primary deeper) 9 (limit + 1) := by
  intro setting read rest e errors he
  rcases takes_primary_iff.1 he with ⟨t, hkind, rfl, rfl, rfl⟩ | ⟨t, hkind, rfl, rfl, rfl⟩ |
    ⟨opening, more, hopen, rfl, hgroup⟩
  · exact .token (.literal hkind) (Nat.le_refl 9) rfl rfl .literal
  · exact .token (.reference hkind) (Nat.le_refl 9) rfl rfl .reference
  · obtain ⟨inner, ts, closing, rfl, rfl, hclose, hinner⟩ := takes_group_iff.1 hgroup
    exact (h.inside hinner).grouping hopen hclose

theorem arguments_madeOf (h : deeper.MakesBelow limit) {setting : Setting} {rest : List Token}
    {es : Array Expr} (hes : (arguments deeper).Takes setting read rest es errors) :
    ArgumentsMadeOf es.toList limit read errors := by
  rcases takes_arguments_iff.1 hes with ⟨-, rfl, rfl, rfl⟩ | ⟨-, hes⟩
  · exact .none
  obtain ⟨ts, us, first, _, errors', rfl, rfl, hfirst, hloop⟩ := takes_bind_iff.1 hes
  obtain ⟨e, told, rfl, rfl, he⟩ := takes_argument_iff.1 hfirst
  have hinit := ArgumentsMadeOf.one [] (h.inside he)
  -- The invariant says that there is an argument already, which the comma stands behind.
  refine (hloop.foldWhile_invariant (fun es read errors =>
    ArgumentsMadeOf es.toList limit read errors ∧ es.toList ≠ []) ⟨hinit, by simp⟩ ?_).1.1
  rintro earlier comma es before errors read rest errors' hcomma ⟨hearlier, hne⟩ hround
  obtain ⟨e, told, rfl, rfl, he⟩ := takes_argument_iff.1 hround
  rw [Array.toList_push]
  exact ⟨hearlier.concat _ hne (by simpa using hcomma) (h.inside he), by simp⟩

theorem makes_application (h : deeper.MakesBelow limit) :
    Makes (application deeper) 8 (limit + 1) := by
  intro setting read rest e errors he
  unfold application at he
  obtain ⟨ts, us, first, es, es', rfl, rfl, hfirst, hloop⟩ := takes_bind_iff.1 he
  have hinit := (makes_primary h hfirst).of_le (Nat.le_succ 8)
  refine (hloop.foldWhile_invariant (fun e read errors => e.MadeOf 8 (limit + 1) read errors)
    hinit ?_).1
  intro callee opening e before earlier read rest errors hopen hcallee hround
  obtain ⟨es, ts, closing, rfl, rfl, hclose, hes⟩ := takes_restOfCall_iff.1 hround
  exact hcallee.call (by simpa using hopen) (arguments_madeOf h hes) hclose

theorem makes_prefixed (h : deeper.MakesBelow limit) : Makes (prefixed deeper) 7 (limit + 1) := by
  intro setting read rest e errors he
  rcases takes_prefixed_iff.1 he with ⟨t, more, operand, hkind, rfl, rfl, hoperand⟩ | ⟨-, he⟩
  · exact (h.operand hoperand).unary hkind
  · exact (makes_application h he).of_le (Nat.le_succ 7)

/-- A target that is no variable is kept, and what was to be assigned is not. -/
theorem makes_expression (h : deeper.MakesBelow limit) :
    Makes (expression deeper) 0 (limit + 1) := by
  have hoperation := makes_operation (makes_prefixed h)
  intro setting read rest e errors he
  rcases takes_expression_iff.1 he with ⟨he, -⟩ | ⟨left, ts, equals, us, value, earlier, told, last,
    hkind, rfl, rfl, hleft, hvalue, hassign⟩
  · exact (hoperation he).of_le (Nat.le_succ 0)
  have hleft := hoperation hleft
  rcases (takes_assign_iff.1 hassign).2 with ⟨target, rfl, rfl, rfl⟩ | ⟨-, rfl, rfl⟩
  · simpa using hleft.assignment hkind (h.inside hvalue)
  · exact { (hleft.of_le (Nat.le_succ 0)) with
      kept_sublist := hleft.kept_sublist.trans (List.sublist_append_left _ _)
      writes := by simp }

theorem makesBelow_ofRoom (room : Nat) : (Deeper.ofRoom room).MakesBelow room := by
  induction room with
  | zero =>
    exact ⟨fun _ _ _ _ _ h => absurd h not_takes_fail, fun _ _ _ _ _ h => absurd h not_takes_fail⟩
  | succ room ih => exact ⟨makes_prefixed ih, makes_expression ih⟩

theorem makes_of_room (room : Nat) : Makes (parser room) 0 (room + 1) :=
  makes_expression (makesBelow_ofRoom room)

end ScriptSyntax.Expr
