import ScriptSyntax.Proofs.Grammar.Written
import ScriptSyntax.Proofs.Parser.Expr
/-! # Every expression of the grammar is read

The tokens that write an expression are read as that expression, in front of any token that it does
not go on with. The loops of the parsers are followed from an operand that they have read to what
they make of the tokens behind it, so that it does not matter which operand came first.
-/

namespace ScriptSyntax.Expr

open ScriptSyntax.Parser

variable {deeper : Deeper} {setting : Setting} {ts us rest tokens : List Token} {e e' : Expr}
  {errors errors' : List SyntaxError} {precedence : Precedence}

/-! ## Where an expression ends -/

theorem EndsBefore.of_le {level level' : Nat} (h : EndsBefore level tokens) (hle : level ≤ level') :
    EndsBefore level' tokens :=
  fun t ht hold hhold => Nat.lt_of_lt_of_le (h t ht hold hhold) hle

theorem endsBefore_of_holdOf?_eq_none {t : Token} (h : holdOf? t.kind = none) (level : Nat) :
    EndsBefore level (t :: tokens) := by
  simp [EndsBefore, h]

theorem endsBefore_of_holdOf?_eq_some {t : Token} {hold level : Nat}
    (h : holdOf? t.kind = some hold) (hlt : hold < level) : EndsBefore level (t :: tokens) := by
  simpa [EndsBefore, h] using hlt

theorem holdOf?_of_ofKind? {kind : TokenKind} (h : Precedence.ofKind? kind = some precedence) :
    holdOf? kind = some precedence.rank := by
  revert h
  cases kind <;> simp [holdOf?, Precedence.ofKind?] <;> rintro rfl <;> rfl

/-! ## Loops behind their first operand -/

/-- Operators of one precedence and their operands, behind what stands on their left. -/
def Precedence.restOfChain (precedence : Precedence) (operand : Parser Expr) (left : Expr) :
    Parser Expr :=
  foldWhile (fun kind => ofKind? kind = some precedence)
    (fun left operator => do return precedence.combine left operator (← operand)) left

theorem Precedence.chain_eq (precedence : Precedence) (operand : Parser Expr) :
    precedence.chain operand = operand >>= precedence.restOfChain operand := rfl

theorem Precedence.takes_restOfChain_nil {operand : Parser Expr}
    (h : EndsBefore precedence.rank rest) :
    (precedence.restOfChain operand e).Takes setting [] rest e [] := by
  refine takes_foldWhile_iff.2 (.inl ⟨fun t ht => ?_, rfl, rfl, rfl⟩)
  simp only [decide_eq_false_iff_not]
  intro hkind
  exact absurd (h t ht _ (holdOf?_of_ofKind? hkind)) (Nat.lt_irrefl _)

theorem Precedence.takes_restOfChain_cons {operand : Parser Expr} {operator : Token}
    {right : Expr} (hkind : ofKind? operator.kind = some precedence)
    (hright : operand.Takes setting ts (us ++ rest) right errors)
    (hrest : (precedence.restOfChain operand (precedence.combine e operator right)).Takes setting us
      rest e' errors') :
    (precedence.restOfChain operand e).Takes setting (operator :: ts ++ us) rest e'
      (errors ++ errors') := by
  refine takes_foldWhile_iff.2 (.inr ⟨operator, ts ++ us, by simpa using hkind, rfl, ?_⟩)
  exact Takes.bind (takes_bind_pure_iff.2 ⟨right, rfl, hright⟩) hrest

/-- Calls of what stands in front of them. -/
def restOfCalls (deeper : Deeper) (callee : Expr) : Parser Expr :=
  foldWhile (· = .leftParen) (fun callee _ => restOfCall deeper callee) callee

theorem application_eq (deeper : Deeper) :
    application deeper = primary deeper >>= restOfCalls deeper := rfl

theorem takes_restOfCalls_nil (h : EndsBefore 8 rest) :
    (restOfCalls deeper e).Takes setting [] rest e [] := by
  refine takes_foldWhile_iff.2 (.inl ⟨fun t ht => ?_, rfl, rfl, rfl⟩)
  simp only [decide_eq_false_iff_not]
  intro hkind
  exact absurd (h t ht 8 (by rw [hkind]; rfl)) (Nat.lt_irrefl 8)

theorem takes_restOfCalls_cons {opening : Token} {callee : Expr} (hkind : opening.kind = .leftParen)
    (hcall : (restOfCall deeper e).Takes setting ts (us ++ rest) callee errors)
    (hrest : (restOfCalls deeper callee).Takes setting us rest e' errors') :
    (restOfCalls deeper e).Takes setting (opening :: ts ++ us) rest e' (errors ++ errors') :=
  takes_foldWhile_iff.2 (.inr ⟨opening, ts ++ us, by simpa using hkind, rfl, hcall.bind hrest⟩)

/-! ## Operations that hold together as tight as some level -/

/-- The parser for what holds together at least as tight as a level from 1 to 7. -/
def operations (deeper : Deeper) (level : Nat) : Parser Expr :=
  (Precedence.tightestFirst.take (7 - level)).foldl (fun operand precedence =>
    precedence.chain operand) (prefixed deeper)

theorem operations_rank (deeper : Deeper) (precedence : Precedence) :
    operations deeper precedence.rank =
      precedence.chain (operations deeper (precedence.rank + 1)) := by
  cases precedence <;> rfl

/-- The tokens of `ts` are read as `e` by the parser for what holds together as tight as a level. -/
def ReadAt (deeper : Deeper) (setting : Setting) (ts : List Token) (e : Expr)
    (errors : List SyntaxError) (level : Nat) : Prop :=
  ∀ ⦃rest⦄, EndsBefore level rest → (operations deeper level).Takes setting ts rest e errors

theorem Precedence.exists_rank_eq {level : Nat} (hpos : 1 ≤ level) (hle : level ≤ 6) :
    ∃ precedence : Precedence, precedence.rank = level := by
  match level, hpos, hle with
  | 1, _, _ => exact ⟨disjunction, rfl⟩
  | 2, _, _ => exact ⟨conjunction, rfl⟩
  | 3, _, _ => exact ⟨equality, rfl⟩
  | 4, _, _ => exact ⟨comparison, rfl⟩
  | 5, _, _ => exact ⟨sum, rfl⟩
  | 6, _, _ => exact ⟨product, rfl⟩

theorem Precedence.eq_of_rank_eq {p q : Precedence} (h : p.rank = q.rank) : p = q := by
  cases p <;> cases q <;> first | rfl | contradiction

/-- What is read as an operand goes on as a chain. -/
theorem ReadAt.chained (h : ReadAt deeper setting ts e errors (precedence.rank + 1))
    (hends : EndsBefore (precedence.rank + 1) (us ++ rest))
    (hrest : (precedence.restOfChain (operations deeper (precedence.rank + 1)) e).Takes setting us
      rest e' errors') :
    (operations deeper precedence.rank).Takes setting (ts ++ us) rest e' (errors ++ errors') := by
  rw [operations_rank, Precedence.chain_eq]
  exact (h hends).bind hrest

theorem ReadAt.of_succ (h : ReadAt deeper setting ts e errors (precedence.rank + 1)) :
    ReadAt deeper setting ts e errors precedence.rank := by
  intro rest hends
  have hends' : EndsBefore (precedence.rank + 1) ([] ++ rest) := hends.of_le (Nat.le_succ _)
  have := h.chained hends' (Precedence.takes_restOfChain_nil hends)
  simpa using this

theorem ReadAt.of_le {level level' : Nat} (h : ReadAt deeper setting ts e errors level')
    (hpos : 1 ≤ level) (hle : level ≤ level') (hle' : level' ≤ 7) :
    ReadAt deeper setting ts e errors level := by
  induction hle with
  | refl => exact h
  | @step level' hle ih =>
    have hle : level ≤ level' := hle
    obtain ⟨precedence, rfl⟩ := Precedence.exists_rank_eq (Nat.le_trans hpos hle) (by omega)
    exact ih h.of_succ (by omega)

/-! ## Everything that the parsers make of an expression -/

/-- The tokens of `ts` are read as `e` by each parser for what holds together as tight as `e`, and
where that parser is a loop, it goes on from `e`. -/
structure ReadsAs (deeper : Deeper) (setting : Setting) (ts : List Token) (e : Expr)
    (errors : List SyntaxError) : Prop where
  called : 8 ≤ e.rank → ∀ us rest e' errors',
    (restOfCalls deeper e).Takes setting us rest e' errors' →
    (application deeper).Takes setting (ts ++ us) rest e' (errors ++ errors')
  prefixed : 7 ≤ e.rank → ∀ rest, EndsBefore 7 rest →
    (prefixed deeper).Takes setting ts rest e errors
  chained : ∀ precedence : Precedence, precedence.rank ≤ e.rank → ∀ us rest e' errors',
    EndsBefore (precedence.rank + 1) (us ++ rest) →
    (precedence.restOfChain (operations deeper (precedence.rank + 1)) e).Takes setting us rest e'
      errors' →
    (operations deeper precedence.rank).Takes setting (ts ++ us) rest e' (errors ++ errors')
  expression : ∀ rest, EndsBefore 0 rest → (expression deeper).Takes setting ts rest e errors

theorem ReadsAs.readAt {level : Nat} (h : ReadsAs deeper setting ts e errors) (hpos : 1 ≤ level)
    (hle : level ≤ 7) (hrank : level ≤ e.rank) : ReadAt deeper setting ts e errors level := by
  intro rest hends
  by_cases hlevel : level = 7
  · subst hlevel
    exact h.prefixed hrank rest hends
  · obtain ⟨precedence, rfl⟩ := Precedence.exists_rank_eq hpos (by omega)
    have := h.chained precedence hrank [] rest e [] (hends.of_le (Nat.le_succ _))
      (Precedence.takes_restOfChain_nil hends)
    simpa using this

theorem ReadAt.expression (h : ReadAt deeper setting ts e errors 1) (hends : EndsBefore 0 rest) :
    (expression deeper).Takes setting ts rest e errors := by
  refine takes_expression_iff.2 (.inl ⟨h (hends.of_le (Nat.zero_le 1)), fun t ht hkind => ?_⟩)
  exact Nat.not_lt_zero 0 (hends t ht 0 (by rw [hkind]; rfl))

theorem ReadsAs.of_prefixed
    (hcalled : 8 ≤ e.rank → ∀ us rest e' errors',
      (restOfCalls deeper e).Takes setting us rest e' errors' →
      (application deeper).Takes setting (ts ++ us) rest e' (errors ++ errors'))
    (h : ∀ rest, EndsBefore 7 rest → (Expr.prefixed deeper).Takes setting ts rest e errors) :
    ReadsAs deeper setting ts e errors := by
  have hread : ReadAt deeper setting ts e errors 7 := h
  exact {
    called := hcalled
    prefixed := fun _ => h
    chained := fun precedence _ us rest e' errors' hends hrest =>
      (hread.of_le (Nat.succ_pos _) (Nat.succ_le_succ precedence.rank_le) (Nat.le_refl 7)).chained
        hends hrest
    expression := fun _ => (hread.of_le (by omega) (by omega) (Nat.le_refl 7)).expression }

theorem ReadsAs.of_called
    (hfirst : ∀ rest, ∀ t ∈ (ts ++ rest).head?, t.kind ≠ .bang ∧ t.kind ≠ .minus)
    (h : ∀ us rest e' errors', (restOfCalls deeper e).Takes setting us rest e' errors' →
      (application deeper).Takes setting (ts ++ us) rest e' (errors ++ errors')) :
    ReadsAs deeper setting ts e errors := by
  refine .of_prefixed (fun _ => h) fun rest hends => ?_
  have := h [] rest e [] (takes_restOfCalls_nil (hends.of_le (by omega)))
  rw [List.append_nil, List.append_nil] at this
  exact takes_prefixed_iff.2 (.inr ⟨hfirst rest, this⟩)

theorem ReadsAs.of_primary
    (hfirst : ∀ rest, ∀ t ∈ (ts ++ rest).head?, t.kind ≠ .bang ∧ t.kind ≠ .minus)
    (h : ∀ rest, (primary deeper).Takes setting ts rest e errors) :
    ReadsAs deeper setting ts e errors := by
  refine .of_called hfirst fun us rest e' errors' hrest => ?_
  rw [application_eq]
  exact (h (us ++ rest)).bind hrest

theorem ReadsAs.call {callee : Expr} {opening closing : Token} {es : List Expr}
    (hcallee : ReadsAs deeper setting ts callee errors) (hrank : 8 ≤ callee.rank)
    (hfirst : ∀ rest, ∀ t ∈ (ts ++ rest).head?, t.kind ≠ .bang ∧ t.kind ≠ .minus)
    (hopening : opening.kind = .leftParen) (hclosing : closing.kind = .rightParen)
    (hes : ∀ rest, (arguments deeper).Takes setting us (closing :: rest) es.toArray errors') :
    ReadsAs deeper setting (ts ++ opening :: us ++ [closing]) (.call callee es closing)
      (errors ++ errors') := by
  refine .of_called (fun rest => by simpa using hfirst (opening :: us ++ [closing] ++ rest)) ?_
  intro vs rest e' told hrest
  have hcall : (restOfCall deeper callee).Takes setting (us ++ [closing]) (vs ++ rest)
      (.call callee es closing) errors' :=
    takes_restOfCall_iff.2 ⟨es.toArray, us, closing, rfl, rfl, hclosing, hes _⟩
  have := hcallee.called hrank _ _ _ _ (takes_restOfCalls_cons hopening hcall hrest)
  simpa using this

theorem ReadsAs.combine {left right : Expr} {operator : Token}
    (hkind : Precedence.ofKind? operator.kind = some precedence)
    (hleft : precedence.rank ≤ left.rank) (hright : precedence.rank < right.rank)
    (hl : ReadsAs deeper setting ts left errors) (hr : ReadsAs deeper setting us right errors') :
    ReadsAs deeper setting (ts ++ operator :: us) (precedence.combine left operator right)
      (errors ++ errors') := by
  have hle := precedence.rank_le
  have hrank : (precedence.combine left operator right).rank = precedence.rank :=
    Precedence.rank_combine hkind
  -- The loop of its own precedence reads the left operand and goes on with the operator.
  have hown : ∀ vs rest e' told, EndsBefore (precedence.rank + 1) (vs ++ rest) →
      (precedence.restOfChain (operations deeper (precedence.rank + 1))
        (precedence.combine left operator right)).Takes setting vs rest e' told →
      (operations deeper precedence.rank).Takes setting (ts ++ operator :: us ++ vs) rest e'
        (errors ++ errors' ++ told) := by
    intro vs rest e' told hends hrest
    have hoperand := hr.readAt (Nat.succ_pos _) (Nat.succ_le_succ hle) hright hends
    have hoperator : EndsBefore (precedence.rank + 1) (operator :: us ++ vs ++ rest) :=
      endsBefore_of_holdOf?_eq_some (holdOf?_of_ofKind? hkind) (Nat.lt_succ_self _)
    have := hl.chained precedence hleft _ _ _ _ hoperator
      (Precedence.takes_restOfChain_cons hkind hoperand hrest)
    simpa using this
  have hread : ReadAt deeper setting (ts ++ operator :: us) (precedence.combine left operator right)
      (errors ++ errors') precedence.rank := by
    intro rest hends
    have := hown [] rest _ [] (hends.of_le (Nat.le_succ _)) (Precedence.takes_restOfChain_nil hends)
    simpa using this
  refine {
    called := fun h => by omega
    prefixed := fun h => by omega
    chained := fun looser hlooser => ?_
    expression := fun _ =>
      (hread.of_le (Nat.le_refl 1) precedence.rank_pos (by omega)).expression }
  by_cases heq : looser.rank = precedence.rank
  · obtain rfl := Precedence.eq_of_rank_eq heq
    exact hown
  · intro vs rest e' told
    exact (hread.of_le (Nat.succ_pos _) (by omega) (by omega)).chained

theorem ReadsAs.assignment {target equals : Token} {value : Expr}
    (htarget : ReadsAs deeper setting [target] (reference target) [])
    (hequals : equals.kind = .equal)
    (hvalue : ∀ rest, EndsBefore 0 rest → deeper.inside.Takes setting us rest value errors) :
    ReadsAs deeper setting (target :: equals :: us) (.assignment target value) errors where
  called h := by simp [rank] at h
  prefixed h := by simp [rank] at h
  chained precedence h := by
    have := precedence.rank_pos
    simp only [rank] at h
    omega
  expression rest hends := by
    have hleft : ReadAt deeper setting [target] (reference target) [] 1 :=
      htarget.readAt (Nat.le_refl 1) (by omega) (by simp [rank])
    have hends' : EndsBefore 1 (equals :: us ++ rest) :=
      endsBefore_of_holdOf?_eq_some (by rw [hequals]; rfl) Nat.one_pos
    refine takes_expression_iff.2 (.inr ⟨reference target, [target], equals, us, value, [], errors,
      [], hequals, rfl, by simp, hleft hends', hvalue rest hends, ?_⟩)
    exact takes_assign_iff.2 ⟨rfl, .inl ⟨target, rfl, rfl, rfl⟩⟩

/-! ## Arguments -/

/-- The error that tells of an argument too many, which starts with a token. -/
def tooManyAt (t : Token) : SyntaxError := ⟨.token t, .tooManyArguments⟩

/-- Expressions are read as arguments if each of them is, in front of what it does not go on with. -/
def Deeper.ReadsInside (deeper : Deeper) (setting : Setting) (es : List Expr) : Prop :=
  ∀ e ∈ es, e.Derivable ∧ ∀ ts rest, e.Writes ts → EndsBefore 0 rest →
    deeper.inside.Takes setting ts rest e ((e.excess ts).map tooManyAt)

theorem takes_argument (he : deeper.ReadsInside setting [e]) (hw : e.Writes ts)
    (hends : EndsBefore 0 rest) (earlier : Array Expr) :
    (argument deeper earlier).Takes setting ts rest (earlier.push e)
      (((if earlier.size = maxArguments then ts.head?.toList else []) ++ e.excess ts).map
        tooManyAt) := by
  obtain ⟨hderivable, hinside⟩ := he e (by simp)
  obtain ⟨t, more, rfl, -⟩ := hderivable.exists_first hw
  refine takes_argument_iff.2 ⟨e, _, rfl, ?_, hinside _ rest hw hends⟩
  rw [List.map_append]
  split <;> rfl

/-- Commas and arguments, behind `earlier` arguments. -/
def restOfArguments (deeper : Deeper) (earlier : Array Expr) : Parser (Array Expr) :=
  foldWhile (· = .comma) (fun earlier _ => argument deeper earlier) earlier

theorem takes_restOfArguments_nil {closing : Token} (hclosing : closing.kind = .rightParen)
    (earlier : Array Expr) :
    (restOfArguments deeper earlier).Takes setting [] (closing :: rest) earlier [] :=
  takes_foldWhile_iff.2 (.inl ⟨by simp [hclosing], rfl, rfl, rfl⟩)

theorem takes_restOfArguments_cons {comma : Token} (hcomma : comma.kind = .comma)
    {earlier all : Array Expr}
    (h : (argument deeper earlier >>= restOfArguments deeper).Takes setting ts rest all errors) :
    (restOfArguments deeper earlier).Takes setting (comma :: ts) rest all errors :=
  takes_foldWhile_iff.2 (.inr ⟨comma, ts, by simpa using hcomma, rfl, h⟩)

theorem takes_arguments_behind {es : List Expr} (hes : deeper.ReadsInside setting (e :: es))
    (hw : WritesArguments (e :: es) ts) {closing : Token} (hclosing : closing.kind = .rightParen)
    (earlier : Array Expr) (rest : List Token) :
    (argument deeper earlier >>= restOfArguments deeper).Takes setting ts (closing :: rest)
      (earlier ++ (e :: es).toArray)
      ((excessOfArguments earlier.size (e :: es) ts).map tooManyAt) := by
  have hone : deeper.ReadsInside setting [e] := fun e' he' => hes e' (by simp_all)
  induction es generalizing e ts earlier with
  | nil =>
    cases hw with
    | one hw =>
      have hends : EndsBefore 0 (closing :: rest) :=
        endsBefore_of_holdOf?_eq_none (by rw [hclosing]; rfl) 0
      have hloop : (restOfArguments deeper (earlier.push e)).Takes setting [] (closing :: rest) _ [] :=
        takes_restOfArguments_nil hclosing (earlier.push e)
      have := (takes_argument hone hw hends earlier).bind hloop
      rw [excessOfArguments_one ((hes e (by simp)).1.length_eq hw)]
      simpa using this
  | cons e' es ih =>
    cases hw with
    | @more _ _ _ comma ts us hw hcomma hothers =>
      have hends : EndsBefore 0 (comma :: us ++ closing :: rest) :=
        endsBefore_of_holdOf?_eq_none (by rw [hcomma]; rfl) 0
      have hloop := ih (fun e'' he => hes e'' (by simp_all)) hothers (earlier.push e)
        fun e'' he => hes e'' (by simp_all)
      have := (takes_argument hone hw hends earlier).bind (takes_restOfArguments_cons hcomma hloop)
      obtain ⟨t, more, rfl, -⟩ := (hes e (by simp)).1.exists_first hw
      rw [excessOfArguments_more ((hes e (by simp)).1.length_eq hw) (by simp)]
      simpa using this

theorem WritesArguments.head?_any {es : List Expr} (hw : WritesArguments (e :: es) ts)
    (h : e.Derivable) (rest : List Token) :
    (ts ++ rest).head?.any (·.kind = .rightParen) = false := by
  have hfirst : ∃ t more, ts = t :: more ∧ startsExpression t.kind = true := by
    cases hw with
    | one hw =>
      obtain ⟨t, more, rfl, ht, -⟩ := h.exists_first hw
      exact ⟨t, more, rfl, ht⟩
    | more hw =>
      obtain ⟨t, more, rfl, ht, -⟩ := h.exists_first hw
      exact ⟨t, _, rfl, ht⟩
  obtain ⟨t, more, rfl, ht⟩ := hfirst
  simp only [List.cons_append, List.head?_cons, Option.any_some, decide_eq_false_iff_not]
  intro hkind
  rw [hkind] at ht
  contradiction

theorem takes_arguments {es : List Expr} (hes : deeper.ReadsInside setting es)
    (hw : WritesArguments es ts) {closing : Token} (hclosing : closing.kind = .rightParen)
    (rest : List Token) :
    (arguments deeper).Takes setting ts (closing :: rest) es.toArray
      ((excessOfArguments 0 es ts).map tooManyAt) := by
  cases es with
  | nil =>
    cases hw
    exact takes_arguments_iff.2 (.inl ⟨by simp [hclosing], rfl, rfl, rfl⟩)
  | cons e es =>
    have hall := takes_arguments_behind hes hw hclosing #[] rest
    rw [Array.empty_append] at hall
    exact takes_arguments_iff.2 (.inr ⟨hw.head?_any (hes e (by simp)).1 _, hall⟩)

/-! ## Expressions -/

theorem Derivable.first_of_rank (h : e.Derivable) (hw : e.Writes ts) (hrank : 8 ≤ e.rank)
    (rest : List Token) : ∀ t ∈ (ts ++ rest).head?, t.kind ≠ .bang ∧ t.kind ≠ .minus := by
  obtain ⟨t, more, rfl, -, hfirst⟩ := h.exists_first hw
  simpa using hfirst hrank

theorem Derivable.readsAs (h : e.Derivable) (hw : e.Writes ts) {room : Nat}
    (hroom : e.nesting ≤ room) :
    ReadsAs (Deeper.ofRoom room) setting ts e ((e.excess ts).map tooManyAt) := by
  induction h using Derivable.byOperation generalizing ts room with
  | operation hkind hleft hright hdl _ ihl ihr =>
    obtain ⟨ts, us, rfl, hl, hr⟩ := Precedence.writes_combine_iff.1 hw
    rw [Precedence.nesting_combine, Nat.max_le] at hroom
    have := (ihl hl hroom.1).combine hkind hleft hright (ihr hr hroom.2)
    rw [Precedence.excess_combine, ← hdl.length_eq hl]
    simpa using this
  | grouping h ih =>
    have hfirst := (Derivable.grouping h).first_of_rank hw (by simp [rank])
    cases hw with
    | grouping hopening hinner hclosing =>
      obtain ⟨room, rfl⟩ := Nat.exists_eq_succ_of_ne_zero (Nat.ne_zero_of_lt hroom)
      have hread := (ih hinner (Nat.le_of_succ_le_succ hroom)).expression
      rw [excess_grouping (h.length_eq hinner)]
      refine .of_primary hfirst fun rest => takes_primary_iff.2 (.inr (.inr ⟨_, _, hopening, rfl, ?_⟩))
      refine takes_group_iff.2 ⟨_, _, _, rfl, rfl, hclosing, hread _ ?_⟩
      exact endsBefore_of_holdOf?_eq_none (by rw [hclosing]; rfl) 0
  | unary hkind hrank h ih =>
    cases hw with
    | unary hoperand =>
      obtain ⟨room, rfl⟩ := Nat.exists_eq_succ_of_ne_zero (Nat.ne_zero_of_lt hroom)
      have hread := (ih hoperand (Nat.le_of_succ_le_succ hroom)).prefixed hrank
      refine .of_prefixed (fun h8 => by simp [rank] at h8) fun rest hends => ?_
      exact takes_prefixed_iff.2 (.inl ⟨_, _, _, hkind, rfl, rfl, hread rest hends⟩)
  | literal hkind =>
    have hfirst := (Derivable.literal hkind).first_of_rank hw (by simp [rank])
    cases hw
    exact .of_primary hfirst fun rest => takes_primary_iff.2 (.inl ⟨_, hkind, rfl, rfl, rfl⟩)
  | reference hkind =>
    have hfirst := (Derivable.reference hkind).first_of_rank hw (by simp [rank])
    cases hw
    exact .of_primary hfirst fun rest => takes_primary_iff.2 (.inr (.inl ⟨_, hkind, rfl, rfl, rfl⟩))
  | @assignment target value hkind h ih =>
    cases hw with
    | assignment hequals hvalue =>
      obtain ⟨room, rfl⟩ := Nat.exists_eq_succ_of_ne_zero (Nat.ne_zero_of_lt hroom)
      have hread := (ih hvalue (Nat.le_of_succ_le_succ hroom)).expression
      have hfirst := (Derivable.reference hkind).first_of_rank .reference (by simp [rank])
      have htarget : ReadsAs (Deeper.ofRoom (room + 1)) setting [target] (.reference target) [] :=
        .of_primary hfirst fun rest => takes_primary_iff.2 (.inr (.inl ⟨_, hkind, rfl, rfl, rfl⟩))
      exact htarget.assignment hequals hread
  | call hkind hrank h hes ih ihes =>
    cases hw with
    | call hcallee hopening hargs =>
      obtain ⟨hroom, hroomes⟩ := Nat.max_le.1 hroom
      have hread := ih hcallee hroom
      have hfirst := h.first_of_rank hcallee hrank
      have hlength := hargs.length_eq fun e he ts hw => (hes e he).length_eq hw
      rw [excess_call (h.length_eq hcallee) hlength, List.map_append]
      refine hread.call hrank hfirst hopening hkind (takes_arguments (fun e he => ?_) hargs hkind)
      have hlt := nestingOfArguments_le_iff.1 hroomes e he
      obtain ⟨room, rfl⟩ := Nat.exists_eq_succ_of_ne_zero (Nat.ne_zero_of_lt hlt)
      exact ⟨hes e he, fun ts rest hw =>
        (ihes e he hw (Nat.le_of_lt_succ hlt)).expression rest⟩

theorem Derivable.takes_of_room (h : e.Derivable) (hw : e.Writes ts) {room : Nat}
    (hroom : e.nesting ≤ room) (hends : EndsBefore 0 rest) :
    (parser room).Takes setting ts rest e ((e.excess ts).map tooManyAt) :=
  (h.readsAs hw hroom).expression rest hends

end ScriptSyntax.Expr
