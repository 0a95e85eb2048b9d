import ScriptSyntax.Proofs.Grammar.Stmt
/-! # The tokens that write something

How many they are, of which kind the first one is, and where among them a call has an argument too
many.
-/

namespace ScriptSyntax.Expr

variable {e : Expr} {es : List Expr} {ts us : List Token}

/-! ## How many tokens write an expression -/

theorem WritesArguments.length_eq (hes : ∀ e ∈ es, ∀ ts, e.Writes ts → ts.length = e.width)
    (h : WritesArguments es ts) : ts.length = widthOfArguments es := by
  induction es generalizing ts with
  | nil =>
    cases h
    rfl
  | cons e es ih =>
    cases h with
    | one honly => exact hes e (by simp) _ honly
    | more hfirst _ hothers =>
      have hlength := ih (fun e he => hes e (by simp [he])) hothers
      simp only [List.length_append, List.length_cons, hes e (by simp) _ hfirst, hlength,
        widthOfArguments]
      omega

theorem Derivable.length_eq (h : e.Derivable) (hw : e.Writes ts) : ts.length = e.width := by
  induction h using Derivable.byOperation generalizing ts with
  | operation _ _ _ _ _ ihl ihr =>
    obtain ⟨ts, us, rfl, hl, hr⟩ := Precedence.writes_combine_iff.1 hw
    simp only [List.length_append, List.length_cons, ihl hl, ihr hr, Precedence.width_combine]
    omega
  | grouping _ ih =>
    cases hw with
    | grouping _ hinner _ => simp [ih hinner, width]
  | unary _ _ _ ih =>
    cases hw with
    | unary hoperand => simp [ih hoperand, width]
  | literal | reference =>
    cases hw
    rfl
  | assignment _ _ ih =>
    cases hw with
    | assignment _ hvalue => simp [ih hvalue, width]
  | call _ _ _ _ ihc ihes =>
    cases hw with
    | call hcallee _ hes =>
      have := hes.length_eq fun e he _ => ihes e he
      simp only [List.length_append, List.length_cons, List.length_nil, ihc hcallee, this, width]
      omega

/-! ## The first token -/

/-- The kinds of tokens that an expression can start with. -/
def startsExpression : TokenKind → Bool
  | .bang | .minus | .leftParen | .identifier => true
  | kind => startsLiteral kind

theorem Derivable.exists_first (h : e.Derivable) (hw : e.Writes ts) :
    ∃ t more, ts = t :: more ∧ startsExpression t.kind = true ∧
      (8 ≤ e.rank → t.kind ≠ .bang ∧ t.kind ≠ .minus) := by
  induction h using Derivable.byOperation generalizing ts with
  | @operation precedence _ _ _ kind left_rank _ _ _ ihl _ =>
    obtain ⟨ts, us, rfl, hl, -⟩ := Precedence.writes_combine_iff.1 hw
    obtain ⟨t, more, rfl, hfirst, -⟩ := ihl hl
    refine ⟨t, _, rfl, hfirst, fun hrank => ?_⟩
    rw [Precedence.rank_combine kind] at hrank
    have := precedence.rank_le
    omega
  | grouping =>
    cases hw with
    | grouping hopening => exact ⟨_, _, rfl, by rw [hopening]; rfl, by simp [hopening]⟩
  | unary kind =>
    cases hw with
    | unary =>
      refine ⟨_, _, rfl, ?_, fun hrank => absurd hrank (by simp [rank])⟩
      rcases kind with kind | kind <;> rw [kind] <;> rfl
  | literal kind =>
    cases hw
    refine ⟨_, _, rfl, ?_, fun _ => ?_⟩
    · revert kind
      cases Token.kind _ <;> simp [startsLiteral, startsExpression]
    · constructor <;> intro hkind <;> simp [hkind, startsLiteral] at kind
  | reference kind =>
    cases hw
    exact ⟨_, _, rfl, by rw [kind]; rfl, by simp [kind]⟩
  | assignment kind =>
    cases hw with
    | assignment => exact ⟨_, _, rfl, by rw [kind]; rfl, by simp [kind]⟩
  | call _ callee_rank _ _ ihc _ =>
    cases hw with
    | call hcallee =>
      obtain ⟨t, more, rfl, hfirst, hprefix⟩ := ihc hcallee
      exact ⟨t, _, rfl, hfirst, fun _ => hprefix callee_rank⟩

/-! ## None of them ends the input -/

theorem WritesArguments.kind_ne_endOfInput
    (hes : ∀ e ∈ es, ∀ ts, e.Writes ts → ∀ t ∈ ts, t.kind ≠ .endOfInput)
    (h : WritesArguments es ts) : ∀ t ∈ ts, t.kind ≠ .endOfInput := by
  induction es generalizing ts with
  | nil =>
    cases h
    simp
  | cons e es ih =>
    cases h with
    | one honly => exact hes e (by simp) _ honly
    | more hfirst hcomma hothers =>
      have hts := hes e (by simp) _ hfirst
      have hus := ih (fun e he => hes e (by simp [he])) hothers
      simp only [List.mem_append, List.mem_cons]
      rintro t (ht | rfl | ht)
      · exact hts t ht
      · simp [hcomma]
      · exact hus t ht

theorem Derivable.kind_ne_endOfInput (h : e.Derivable) (hw : e.Writes ts) :
    ∀ t ∈ ts, t.kind ≠ .endOfInput := by
  induction h using Derivable.byOperation generalizing ts with
  | operation kind _ _ _ _ ihl ihr =>
    obtain ⟨ts, us, rfl, hl, hr⟩ := Precedence.writes_combine_iff.1 hw
    have hoperator : Token.kind _ ≠ .endOfInput := fun hend => by
      rw [hend] at kind
      contradiction
    simpa [or_imp, forall_and] using ⟨ihl hl, hoperator, ihr hr⟩
  | grouping _ ih =>
    cases hw with
    | grouping hopening hinner hclosing =>
      simpa [or_imp, forall_and, hopening, hclosing] using ih hinner
  | unary kind _ _ ih =>
    cases hw with
    | unary hoperand =>
      rcases kind with kind | kind <;>
        simpa [or_imp, forall_and, kind] using ih hoperand
  | literal kind =>
    cases hw
    simp only [List.mem_singleton, forall_eq]
    intro hend
    simp [hend, startsLiteral] at kind
  | reference kind =>
    cases hw
    simp [kind]
  | assignment kind _ ih =>
    cases hw with
    | assignment hequals hvalue => simpa [or_imp, forall_and, hequals, kind] using ih hvalue
  | call kind _ _ _ ihc ihes =>
    cases hw with
    | call hcallee hopening hes =>
      have := hes.kind_ne_endOfInput fun e he _ => ihes e he
      simpa [or_imp, forall_and, hopening, kind] using ⟨ihc hcallee, this⟩

/-! ## Where calls have too many arguments -/

theorem excess_grouping {inner : Expr} {opening closing : Token} (h : ts.length = inner.width) :
    (grouping inner).excess (opening :: ts ++ [closing]) = inner.excess ts := by
  simp [excess, List.take_left' h]

theorem excess_call {callee : Expr} {opening closing : Token} (h : ts.length = callee.width)
    (hus : us.length = widthOfArguments es) :
    (call callee es closing).excess (ts ++ opening :: us ++ [closing]) =
      callee.excess ts ++ excessOfArguments 0 es us := by
  simp [excess, ← h, ← hus]

theorem excessOfArguments_one {n : Nat} (h : ts.length = e.width) :
    excessOfArguments n [e] ts =
      (if n = maxArguments then ts.head?.toList else []) ++ e.excess ts := by
  simp [excessOfArguments, ← h]

theorem excessOfArguments_more {n : Nat} {comma : Token} (h : ts.length = e.width)
    (hne : ts ≠ []) :
    excessOfArguments n (e :: es) (ts ++ comma :: us) =
      (if n = maxArguments then ts.head?.toList else []) ++
        (e.excess ts ++ excessOfArguments (n + 1) es us) := by
  obtain ⟨t, more, rfl⟩ := List.exists_cons_of_ne_nil hne
  simp [excessOfArguments, ← h]

theorem sublist_tail_of_append {tokens left right : List Token} {n : Nat}
    (hl : left.Sublist (tokens.take n).tail) (hr : right.Sublist (tokens.drop (n + 1))) :
    (left ++ right).Sublist tokens.tail := by
  refine (hl.append hr).trans ?_
  cases tokens with
  | nil => simp
  | cons t more =>
    cases n with
    | zero => simp
    | succ n =>
      have := (List.Sublist.refl (more.take n)).append (List.drop_sublist 1 (more.drop n))
      rw [List.take_append_drop, List.drop_drop] at this
      exact this

mutual

/-- The first tokens of arguments that are one too many are told of in the order in which they
stand, behind the first token of all. -/
theorem excess_sublist_tail : ∀ (e : Expr) (tokens : List Token),
    (e.excess tokens).Sublist tokens.tail
  | binary left _ right, tokens | logical left _ right, tokens =>
    sublist_tail_of_append (left.excess_sublist_tail _)
      ((right.excess_sublist_tail _).trans (List.tail_sublist _))
  | grouping inner, tokens => by
    have := (inner.excess_sublist_tail _).trans (List.tail_sublist ((tokens.drop 1).take inner.width))
    rw [← List.drop_one]
    exact this.trans (List.take_sublist _ _)
  | unary _ operand, tokens => by
    rw [← List.drop_one]
    exact (operand.excess_sublist_tail _).trans (List.tail_sublist _)
  | literal _, _ | reference _, _ => List.nil_sublist _
  | assignment _ value, tokens => by
    rw [← List.drop_one]
    have := (value.excess_sublist_tail (tokens.drop 2)).trans (List.tail_sublist _)
    exact this.trans (List.drop_sublist_drop_left tokens (by omega))
  | call callee arguments _, tokens =>
    sublist_tail_of_append (callee.excess_sublist_tail _)
      ((excessOfArguments_sublist 0 arguments _).trans (List.take_sublist _ _))

theorem excessOfArguments_sublist : ∀ (n : Nat) (es : List Expr) (tokens : List Token),
    (excessOfArguments n es tokens).Sublist tokens
  | _, [], tokens => List.nil_sublist tokens
  | n, e :: es, tokens => by
    have := sublist_tail_of_append (e.excess_sublist_tail _)
      (excessOfArguments_sublist (n + 1) es (tokens.drop (e.width + 1)))
    unfold excessOfArguments
    cases tokens with
    | nil => simpa using this
    | cons t more =>
      split
      · exact this.cons_cons t
      · exact this.cons t

end

mutual

/-- How many calls have more arguments than allowed. -/
def longCalls : Expr → Nat
  | binary left _ right | logical left _ right => left.longCalls + right.longCalls
  | grouping inner => inner.longCalls
  | unary _ operand => operand.longCalls
  | literal _ | reference _ => 0
  | assignment _ value => value.longCalls
  | call callee arguments _ =>
    callee.longCalls +
      ((if maxArguments < arguments.length then 1 else 0) + longCallsOfArguments arguments)

def longCallsOfArguments : List Expr → Nat
  | [] => 0
  | e :: es => e.longCalls + longCallsOfArguments es

end

theorem longCalls_combine {precedence : Precedence} (left : Expr) (operator : Token)
    (right : Expr) :
    (precedence.combine left operator right).longCalls = left.longCalls + right.longCalls := by
  cases precedence <;> rfl

theorem WritesArguments.length_excess {n : Nat}
    (hes : ∀ e ∈ es, e.Derivable ∧ ∀ ts, e.Writes ts → (e.excess ts).length = e.longCalls)
    (h : WritesArguments es ts) :
    (excessOfArguments n es ts).length =
      (if n ≤ maxArguments ∧ maxArguments < n + es.length then 1 else 0) +
        longCallsOfArguments es := by
  induction es generalizing n ts with
  | nil =>
    simp [excessOfArguments, longCallsOfArguments]
  | cons e es ih =>
    obtain ⟨hderivable, hlength⟩ := hes e (by simp)
    cases h with
    | one honly =>
      obtain ⟨t, more, rfl, -⟩ := hderivable.exists_first honly
      rw [excessOfArguments_one (hderivable.length_eq honly), List.length_append, hlength _ honly]
      split <;> simp [longCallsOfArguments] <;> omega
    | more hfirst hcomma hothers =>
      obtain ⟨t, more, rfl, -⟩ := hderivable.exists_first hfirst
      have := ih (n := n + 1) (fun e he => hes e (by simp [he])) hothers
      rw [excessOfArguments_more (hderivable.length_eq hfirst) (by simp), List.length_append,
        List.length_append, hlength _ hfirst, this]
      show _ = _ + (e.longCalls + longCallsOfArguments (_ :: _))
      simp only [List.length_cons]
      split <;> split <;> split <;>
        simp only [List.head?_cons, Option.toList_some, List.length_cons, List.length_nil] <;> omega

theorem Derivable.length_excess (h : e.Derivable) (hw : e.Writes ts) :
    (e.excess ts).length = e.longCalls := by
  induction h using Derivable.byOperation generalizing ts with
  | operation _ _ _ hl' _ ihl ihr =>
    obtain ⟨ts, us, rfl, hl, hr⟩ := Precedence.writes_combine_iff.1 hw
    rw [Precedence.excess_combine, longCalls_combine, ← hl'.length_eq hl]
    simp [ihl hl, ihr hr]
  | grouping h ih =>
    cases hw with
    | grouping _ hinner _ => rw [excess_grouping (h.length_eq hinner), ih hinner, longCalls]
  | unary _ _ _ ih =>
    cases hw with
    | unary hoperand => simp [excess, ih hoperand, longCalls]
  | literal | reference => rfl
  | assignment _ _ ih =>
    cases hw with
    | assignment _ hvalue => simp [excess, ih hvalue, longCalls]
  | call _ _ h hes ihc ihes =>
    cases hw with
    | call hcallee _ hargs =>
      have hlength := hargs.length_eq fun e he ts hw => (hes e he).length_eq hw
      rw [excess_call (h.length_eq hcallee) hlength, List.length_append, ihc hcallee,
        hargs.length_excess fun e he => ⟨hes e he, fun _ => ihes e he⟩]
      simp [longCalls]

end ScriptSyntax.Expr

namespace ScriptSyntax.Stmt

open ScriptSyntax.Expr (startsExpression)

variable {s : Stmt} {ss : List Stmt} {ts us vs : List Token}

/-! ## How many tokens write a statement -/

theorem WritesAll.length_eq (hss : ∀ s ∈ ss, ∀ ts, s.Writes ts → ts.length = s.width)
    (h : WritesAll ss ts) : ts.length = widthOfAll ss := by
  induction ss generalizing ts with
  | nil =>
    cases h
    rfl
  | cons s ss ih =>
    cases h with
    | cons hfirst hothers =>
      rw [List.length_append, hss s (by simp) _ hfirst, ih (fun s hs => hss s (by simp [hs])) hothers,
        widthOfAll]

theorem Derivable.length_eq (h : s.Derivable) (hw : s.Writes ts) : ts.length = s.width := by
  induction h generalizing ts with
  | expression h =>
    cases hw with
    | expression hvalue => simp [h.length_eq hvalue, width]
  | print h =>
    cases hw with
    | print _ hvalue => simp [h.length_eq hvalue, width]
  | var _ h =>
    cases hw with
    | varOnly => rfl
    | varWith _ _ hvalue => simp [(h _ rfl).length_eq hvalue, width]
  | block _ ih =>
    cases hw with
    | block _ hall => simp [hall.length_eq fun s hs _ => ih s hs, width]
  | ifThen h _ _ ih =>
    cases hw with
    | ifThen _ _ hcondition _ hbranch =>
      simp only [List.length_append, List.length_cons, h.length_eq hcondition, ih hbranch, width]
      omega
  | ifElse h _ _ _ _ _ ih ih' =>
    cases hw with
    | ifElse _ _ hcondition _ hbranch _ halternative =>
      simp only [List.length_append, List.length_cons, h.length_eq hcondition, ih hbranch,
        ih' halternative, width]
      omega

/-! ## The first token -/

theorem Derivable.exists_first (h : s.Derivable) (hw : s.Writes ts) :
    ∃ t more, ts = t :: more ∧ t.kind ≠ .elseKeyword ∧ t.kind ≠ .semicolon ∧
      t.kind ≠ .rightBrace ∧ (s.isVariable = false → t.kind ≠ .varKeyword) := by
  cases h with
  | expression h =>
    cases hw with
    | expression hvalue =>
      obtain ⟨t, more, rfl, ht, -⟩ := h.exists_first hvalue
      refine ⟨t, _, rfl, ?_, ?_, ?_, fun _ => ?_⟩ <;> intro hkind <;> rw [hkind] at ht <;>
        contradiction
  | print =>
    cases hw with
    | print hkeyword => exact ⟨_, _, rfl, by simp [hkeyword]⟩
  | var =>
    cases hw with
    | varOnly hkeyword => exact ⟨_, _, rfl, by simp [hkeyword, isVariable]⟩
    | varWith hkeyword => exact ⟨_, _, rfl, by simp [hkeyword, isVariable]⟩
  | block =>
    cases hw with
    | block hopening => exact ⟨_, _, rfl, by simp [hopening]⟩
  | ifThen =>
    cases hw with
    | ifThen hkeyword => exact ⟨_, _, rfl, by simp [hkeyword]⟩
  | ifElse =>
    cases hw with
    | ifElse hkeyword => exact ⟨_, _, rfl, by simp [hkeyword]⟩

/-! ## None of them ends the input -/

theorem WritesAll.kind_ne_endOfInput
    (hss : ∀ s ∈ ss, ∀ ts, s.Writes ts → ∀ t ∈ ts, t.kind ≠ .endOfInput)
    (h : WritesAll ss ts) : ∀ t ∈ ts, t.kind ≠ .endOfInput := by
  induction ss generalizing ts with
  | nil =>
    cases h
    simp
  | cons s ss ih =>
    cases h with
    | cons hfirst hothers =>
      intro t ht
      rcases List.mem_append.1 ht with ht | ht
      · exact hss s (by simp) _ hfirst t ht
      · exact ih (fun s hs => hss s (by simp [hs])) hothers t ht

theorem Derivable.kind_ne_endOfInput (h : s.Derivable) (hw : s.Writes ts) :
    ∀ t ∈ ts, t.kind ≠ .endOfInput := by
  induction h generalizing ts with
  | expression h =>
    cases hw with
    | expression hvalue hsemicolon =>
      simpa [or_imp, forall_and, hsemicolon] using h.kind_ne_endOfInput hvalue
  | print h =>
    cases hw with
    | print hkeyword hvalue hsemicolon =>
      simpa [or_imp, forall_and, hkeyword, hsemicolon] using h.kind_ne_endOfInput hvalue
  | var hname h =>
    cases hw with
    | varOnly hkeyword hsemicolon => simp [hkeyword, hname, hsemicolon]
    | varWith hkeyword hequals hvalue hsemicolon =>
      simpa [or_imp, forall_and, hkeyword, hname, hequals, hsemicolon] using
        (h _ rfl).kind_ne_endOfInput hvalue
  | block _ ih =>
    cases hw with
    | block hopening hall hclosing =>
      have := hall.kind_ne_endOfInput fun s hs _ => ih s hs
      simpa [or_imp, forall_and, hopening, hclosing] using this
  | ifThen h _ _ ih =>
    cases hw with
    | ifThen hkeyword hopening hcondition hclosing hbranch =>
      simpa [or_imp, forall_and, hkeyword, hopening, hclosing] using
        ⟨h.kind_ne_endOfInput hcondition, ih hbranch⟩
  | ifElse h _ _ _ _ _ ih ih' =>
    cases hw with
    | ifElse hkeyword hopening hcondition hclosing hbranch hkeyword' halternative =>
      simpa [or_imp, forall_and, hkeyword, hopening, hclosing, hkeyword'] using
        ⟨h.kind_ne_endOfInput hcondition, ih hbranch, ih' halternative⟩

/-! ## Where calls have too many arguments -/

variable {value condition : Expr} {branch alternative : Stmt}
  {keyword keyword' name equals opening closing semicolon : Token}

theorem excess_expression (h : ts.length = value.width) :
    (expression value).excess (ts ++ [semicolon]) = value.excess ts := by
  simp [excess, ← h]

theorem excess_print (h : ts.length = value.width) :
    (print value).excess (keyword :: ts ++ [semicolon]) = value.excess ts := by
  simp [excess, ← h]

theorem excess_var (h : ts.length = value.width) :
    (var name (some value)).excess (keyword :: name :: equals :: ts ++ [semicolon]) =
      value.excess ts := by
  simp [excess, ← h]

theorem excess_block (h : ts.length = widthOfAll ss) :
    (block ss).excess (opening :: ts ++ [closing]) = excessOfAll ss ts := by
  simp [excess, ← h]

theorem excess_ifThen (h : ts.length = condition.width) :
    (ifThen condition branch).excess (keyword :: opening :: ts ++ closing :: us) =
      condition.excess ts ++ branch.excess us := by
  simp [excess, ← h]

theorem excess_ifElse (h : ts.length = condition.width) (h' : us.length = branch.width) :
    (ifElse condition branch alternative).excess
      (keyword :: opening :: ts ++ closing :: us ++ keyword' :: vs) =
      condition.excess ts ++ (branch.excess us ++ alternative.excess vs) := by
  have hlength : condition.width + 3 + branch.width + 1 = ts.length + (us.length + 2) + 2 := by
    omega
  rw [excess, hlength]
  simp [← h, ← h']

theorem excessOfAll_cons (h : ts.length = s.width) :
    excessOfAll (s :: ss) (ts ++ us) = s.excess ts ++ excessOfAll ss us := by
  simp [excessOfAll, ← h]

theorem WritesAll.excess_sublist (hss : ∀ s ∈ ss, s.Derivable ∧
    ∀ ts, s.Writes ts → (s.excess ts).Sublist ts) (h : WritesAll ss ts) :
    (excessOfAll ss ts).Sublist ts := by
  induction ss generalizing ts with
  | nil => exact List.nil_sublist ts
  | cons s ss ih =>
    cases h with
    | cons hfirst hothers =>
      obtain ⟨hderivable, hsublist⟩ := hss s (by simp)
      rw [excessOfAll_cons (hderivable.length_eq hfirst)]
      exact (hsublist _ hfirst).append (ih (fun s hs => hss s (by simp [hs])) hothers)

theorem Derivable.excess_sublist (h : s.Derivable) (hw : s.Writes ts) :
    (s.excess ts).Sublist ts := by
  have hexpression (e : Expr) (ts : List Token) : (e.excess ts).Sublist ts :=
    (e.excess_sublist_tail ts).trans (List.tail_sublist ts)
  induction h generalizing ts with
  | expression h =>
    cases hw with
    | expression hvalue =>
      rw [excess_expression (h.length_eq hvalue)]
      exact (hexpression _ _).trans (List.sublist_append_left _ _)
  | print h =>
    cases hw with
    | print _ hvalue =>
      rw [excess_print (h.length_eq hvalue)]
      exact ((hexpression _ _).trans (List.sublist_append_left _ _)).cons _
  | var _ h =>
    cases hw with
    | varOnly => exact List.nil_sublist _
    | varWith _ _ hvalue =>
      rw [excess_var ((h _ rfl).length_eq hvalue)]
      exact ((((hexpression _ _).trans (List.sublist_append_left _ _)).cons _).cons _).cons _
  | block hss ih =>
    cases hw with
    | block _ hall =>
      rw [excess_block (hall.length_eq fun s hs _ => (hss s hs).length_eq)]
      have := hall.excess_sublist fun s hs => ⟨hss s hs, fun _ => ih s hs⟩
      exact (this.trans (List.sublist_append_left _ _)).cons _
  | ifThen h _ _ ih =>
    cases hw with
    | ifThen _ _ hcondition _ hbranch =>
      rw [excess_ifThen (h.length_eq hcondition)]
      exact (((hexpression _ _).append ((ih hbranch).cons _)).cons _).cons _
  | ifElse h hb _ _ _ _ ih ih' =>
    cases hw with
    | ifElse _ _ hcondition _ hbranch _ halternative =>
      rw [excess_ifElse (h.length_eq hcondition) (hb.length_eq hbranch), List.append_assoc]
      exact (((hexpression _ _).append
        (((ih hbranch).append ((ih' halternative).cons _)).cons _)).cons _).cons _

mutual

/-- How many calls have more arguments than allowed. -/
def longCalls : Stmt → Nat
  | expression value | print value => value.longCalls
  | var _ none => 0
  | var _ (some value) => value.longCalls
  | block statements => longCallsOfAll statements
  | ifThen condition branch => condition.longCalls + branch.longCalls
  | ifElse condition branch alternative =>
    condition.longCalls + (branch.longCalls + alternative.longCalls)

def longCallsOfAll : List Stmt → Nat
  | [] => 0
  | s :: ss => s.longCalls + longCallsOfAll ss

end

theorem WritesAll.length_excess (hss : ∀ s ∈ ss, s.Derivable ∧
    ∀ ts, s.Writes ts → (s.excess ts).length = s.longCalls) (h : WritesAll ss ts) :
    (excessOfAll ss ts).length = longCallsOfAll ss := by
  induction ss generalizing ts with
  | nil => rfl
  | cons s ss ih =>
    cases h with
    | cons hfirst hothers =>
      obtain ⟨hderivable, hlength⟩ := hss s (by simp)
      rw [excessOfAll_cons (hderivable.length_eq hfirst), List.length_append, hlength _ hfirst,
        ih (fun s hs => hss s (by simp [hs])) hothers, longCallsOfAll]

theorem Derivable.length_excess (h : s.Derivable) (hw : s.Writes ts) :
    (s.excess ts).length = s.longCalls := by
  induction h generalizing ts with
  | expression h =>
    cases hw with
    | expression hvalue =>
      rw [excess_expression (h.length_eq hvalue), h.length_excess hvalue, longCalls]
  | print h =>
    cases hw with
    | print _ hvalue => rw [excess_print (h.length_eq hvalue), h.length_excess hvalue, longCalls]
  | var _ h =>
    cases hw with
    | varOnly => rfl
    | varWith _ _ hvalue =>
      have h := h _ rfl
      rw [excess_var (h.length_eq hvalue), h.length_excess hvalue, longCalls]
  | block hss ih =>
    cases hw with
    | block _ hall =>
      rw [excess_block (hall.length_eq fun s hs _ => (hss s hs).length_eq),
        hall.length_excess fun s hs => ⟨hss s hs, fun _ => ih s hs⟩, longCalls]
  | ifThen h _ _ ih =>
    cases hw with
    | ifThen _ _ hcondition _ hbranch =>
      rw [excess_ifThen (h.length_eq hcondition), List.length_append, h.length_excess hcondition,
        ih hbranch, longCalls]
  | ifElse h hb _ _ _ _ ih ih' =>
    cases hw with
    | ifElse _ _ hcondition _ hbranch _ halternative =>
      rw [excess_ifElse (h.length_eq hcondition) (hb.length_eq hbranch), List.length_append,
        List.length_append, h.length_excess hcondition, ih hbranch, ih' halternative, longCalls]

end ScriptSyntax.Stmt
