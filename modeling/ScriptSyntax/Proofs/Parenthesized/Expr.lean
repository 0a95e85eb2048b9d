import ScriptSyntax.Proofs.Kinds.Tree
import ScriptSyntax.Proofs.Parenthesized.Tokens
/-! # What a text shows of an expression

The parenthesized form of an expression is the text of a term, and the term can be read as an expression
again: the same one, but for what its tokens do not show.
-/

namespace ScriptSyntax

open ScriptSyntax.Expr (Precedence)

/-! ## Expressions as terms -/

def groupLabel : List Char := ['g', 'r', 'o', 'u', 'p']

def callLabel : List Char := ['c', 'a', 'l', 'l']

namespace Expr

mutual

/-- The term whose text is the parenthesized form. -/
def term : Expr → Term
  | binary left operator right | logical left operator right =>
    .list operator.lexeme.toList [left.term, right.term]
  | grouping inner => .list groupLabel [inner.term]
  | unary operator operand => .list operator.lexeme.toList [operand.term]
  | literal value => .word (literalText value).toList
  | reference name => .name name.lexeme.toList
  | assignment target value => .assignment target.lexeme.toList value.term
  | call callee arguments _ => .list callLabel (callee.term :: termsOf arguments)

def termsOf : List Expr → List Term
  | [] => []
  | e :: es => e.term :: termsOf es

end

mutual

theorem toList_parenthesized : ∀ e : Expr, e.parenthesized.toList = e.term.text
  | binary left operator right | logical left operator right => by
    simp [parenthesized, term, Term.text, Term.textOfParts, toList_parenthesized left,
      toList_parenthesized right]
  | grouping inner => by
    simp [parenthesized, term, Term.text, Term.textOfParts, groupLabel, toList_parenthesized inner]
  | unary operator operand => by
    simp [parenthesized, term, Term.text, Term.textOfParts, toList_parenthesized operand]
  | literal value => by simp [parenthesized, term, Term.text]
  | reference name => by simp [parenthesized, term, Term.text]
  | assignment target value => by
    simp [parenthesized, term, Term.text, toList_parenthesized value]
  | call callee arguments closingParen => by
    simp [parenthesized, term, Term.text, Term.textOfParts, callLabel, toList_parenthesized callee,
      toList_argumentsParenthesized arguments]

theorem toList_argumentsParenthesized : ∀ es : List Expr,
    (argumentsParenthesized es).toList = Term.textOfParts (termsOf es)
  | [] => rfl
  | e :: es => by
    simp [argumentsParenthesized, termsOf, Term.textOfParts, toList_parenthesized e,
      toList_argumentsParenthesized es]

end

theorem term_combine (precedence : Precedence) (left : Expr) (operator : Token) (right : Expr) :
    (precedence.combine left operator right).term =
      .list operator.lexeme.toList [left.term, right.term] := by
  cases precedence <;> rfl

end Expr

/-! ## Terms as expressions -/

namespace Term

def paren : Token := .ofText .rightParen [')']

/-- The expression that a label makes of parts. -/
def combine (label : List Char) : List Expr → Expr
  | [] => .literal (.ofText .number label)
  | [part] =>
    if label = groupLabel then .grouping part
    else if label = callLabel then .call part [] paren
    else .unary (.ofText .identifier label) part
  | left :: right :: more =>
    if label = callLabel then .call left (right :: more) paren
    else
      let operator := Token.ofText .identifier label
      ((Precedence.ofKind? operator.kind).getD .sum).combine left operator right

mutual

/-- The expression that a term shows. -/
def expr : Term → Expr
  | word text => .literal (.ofText .number text)
  | name text => .reference (.ofText .identifier text)
  | assignment target value => .assignment (.ofText .identifier target) value.expr
  | list label parts => combine label (exprs parts)

def exprs : List Term → List Expr
  | [] => []
  | part :: parts => part.expr :: exprs parts

end

theorem combine_call (callee : Expr) (arguments : List Expr) :
    combine callLabel (callee :: arguments) = .call callee arguments paren := by
  cases arguments <;> rfl

end Term

/-! ## Tokens that are kept -/

theorem Token.kind_plain (t : Token) : t.plain.kind = t.kind := by
  unfold plain
  split
  · rename_i hkind _
    exact hkind.symm
  · rfl

theorem Token.IsLexed.plain_of_operator {t : Token} (h : t.IsLexed)
    (hkind : t.kind.isOperator = true) :
    t.plain = .ofText .identifier t.lexeme.toList ∧ t.plain.lexeme = t.lexeme ∧
      IsBare t.lexeme.toList ∧ t.lexeme.toList ≠ groupLabel ∧ t.lexeme.toList ≠ callLabel := by
  have hne {kind : TokenKind} (hno : kind.isOperator = false) : t.kind ≠ kind := fun heq => by
    rw [heq, hno] at hkind
    contradiction
  have htable : ∀ s ∈ TokenKind.symbols ++ TokenKind.keywords, s.2.isOperator = true →
      IsBare s.1 ∧ s.1 ≠ groupLabel ∧ s.1 ≠ callLabel := by decide
  obtain ⟨hplain, hmem⟩ := h.plain_of_mark (hne rfl) (hne rfl) (hne rfl) .identifier
  refine ⟨hplain, ?_, htable _ hmem hkind⟩
  rw [plain_eq_unplaced (hne rfl)]
  rfl

theorem Token.IsLexed.plain_of_paren {t : Token} (h : t.IsLexed) (hkind : t.kind = .rightParen) :
    t.plain = Term.paren := by
  have htable : ∀ s ∈ TokenKind.symbols ++ TokenKind.keywords, s.2 = .rightParen →
      s.1 = [')'] := by decide
  have hne {kind : TokenKind} (hno : kind ≠ .rightParen) : t.kind ≠ kind := fun heq =>
    hno (heq.symm.trans hkind)
  obtain ⟨hplain, hmem⟩ :=
    h.plain_of_mark (hne (by decide)) (hne (by decide)) (hne (by decide)) .rightParen
  have hlexeme : t.lexeme.toList = [')'] := htable _ hmem hkind
  rw [hplain, hlexeme]
  rfl

/-! ## Expressions are shown -/

namespace Expr

/-- An expression is told from its text but for what its tokens do not show. -/
structure IsShown (e : Expr) : Prop where
  sound : e.term.IsSound
  term_plain : (e.mapTokens Token.plain).term = e.term
  expr_term : e.term.expr = e.mapTokens Token.plain

/-- The tokens that the grammar takes from a text, without strings. -/
def IsPlainSource (t : Token) : Prop := t.IsLexed ∧ t.kind ≠ .string

variable {e e' : Expr} {es : List Expr}

theorem allShown (h : ∀ e ∈ es, e.IsShown) :
    Term.AllSound (termsOf es) ∧ termsOf (es.map (mapTokens Token.plain)) = termsOf es ∧
      Term.exprs (termsOf es) = es.map (mapTokens Token.plain) := by
  induction es with
  | nil => exact ⟨trivial, rfl, rfl⟩
  | cons e es ih =>
    obtain ⟨he, hes⟩ := List.forall_mem_cons.1 h
    obtain ⟨hsound, hterms, hexprs⟩ := ih hes
    refine ⟨⟨he.sound, hsound⟩, ?_, ?_⟩
    · rw [List.map_cons, termsOf, termsOf, he.term_plain, hterms]
    · rw [termsOf, Term.exprs, he.expr_term, hexprs, List.map_cons]

theorem mem_keptByArguments {t : Token} (he : e ∈ es) (ht : t ∈ e.kept) : t ∈ keptByArguments es := by
  obtain ⟨before, behind, rfl⟩ := List.append_of_mem he
  rw [keptByArguments_append]
  exact List.mem_append_right _ (List.mem_append_left _ ht)

theorem Derivable.isShown (h : e.Derivable) (hkept : ∀ t ∈ e.kept, IsPlainSource t) : e.IsShown := by
  induction h using Derivable.byOperation with
  | @operation precedence left right operator hkind _ _ _ _ ihl ihr =>
    rw [Precedence.kept_combine, List.forall_mem_append, List.forall_mem_cons] at hkept
    obtain ⟨hleft, ⟨hoperator, -⟩, hright⟩ := hkept
    obtain ⟨hplain, hlexeme, hbare, -, hcall⟩ :=
      hoperator.plain_of_operator (by simp [TokenKind.isOperator, hkind])
    have hl := ihl hleft
    have hr := ihr hright
    constructor
    case sound =>
      rw [term_combine]
      exact ⟨hbare, hl.sound, hr.sound, trivial⟩
    case term_plain =>
      rw [mapTokens_combine, term_combine, term_combine, hlexeme, hl.term_plain, hr.term_plain]
    case expr_term =>
      -- The label is the operator again, and its kind says which operation it makes.
      have hprecedence := hkind
      rw [← Token.kind_plain, hplain] at hprecedence
      rw [term_combine, mapTokens_combine, Term.expr, Term.exprs, Term.exprs, Term.exprs,
        hl.expr_term, hr.expr_term, hplain, Term.combine, if_neg hcall]
      simp only [hprecedence, Option.getD_some]
  | grouping _ ih =>
    obtain ⟨hsound, hterm, hexpr⟩ := ih hkept
    constructor
    case sound => exact ⟨by decide, hsound, trivial⟩
    case term_plain => rw [mapTokens, term, term, hterm]
    case expr_term =>
      rw [term, mapTokens, Term.expr, Term.exprs, Term.exprs, hexpr, Term.combine, if_pos rfl]
  | @unary operator operand hkind _ _ ih =>
    obtain ⟨⟨hoperator, -⟩, hoperand⟩ := List.forall_mem_cons.1 hkept
    obtain ⟨hplain, hlexeme, hbare, hgroup, hcall⟩ :=
      hoperator.plain_of_operator (by rcases hkind with hkind | hkind <;> rw [hkind] <;> rfl)
    obtain ⟨hsound, hterm, hexpr⟩ := ih hoperand
    constructor
    case sound => exact ⟨hbare, hsound, trivial⟩
    case term_plain => rw [mapTokens, term, term, hlexeme, hterm]
    case expr_term =>
      rw [term, mapTokens, Term.expr, Term.exprs, Term.exprs, hexpr, hplain, Term.combine,
        if_neg hgroup, if_neg hcall]
  | literal hkind =>
    obtain ⟨hlexed, hstring⟩ := hkept _ List.mem_cons_self
    obtain ⟨hplain, hword, htext⟩ := hlexed.plain_of_literal hkind hstring
    constructor
    case sound => exact hword
    case term_plain => rw [mapTokens, term, term, htext]
    case expr_term => rw [term, mapTokens, Term.expr, hplain]
  | reference hkind =>
    obtain ⟨hlexed, -⟩ := hkept _ List.mem_cons_self
    obtain ⟨hplain, hbare⟩ := hlexed.plain_of_name hkind
    constructor
    case sound => exact hbare
    case term_plain => rw [mapTokens, term, term, hplain, Token.ofText, String.toList_ofList]
    case expr_term => rw [term, mapTokens, Term.expr, hplain]
  | assignment hkind _ ih =>
    obtain ⟨⟨hlexed, -⟩, hvalue⟩ := List.forall_mem_cons.1 hkept
    obtain ⟨hplain, hbare⟩ := hlexed.plain_of_name hkind
    obtain ⟨hsound, hterm, hexpr⟩ := ih hvalue
    constructor
    case sound => exact ⟨hbare, hsound⟩
    case term_plain =>
      rw [mapTokens, term, term, hterm, hplain, Token.ofText, String.toList_ofList]
    case expr_term => rw [term, mapTokens, Term.expr, hexpr, hplain]
  | @call callee arguments closingParen hkind _ _ _ ih ihes =>
    rw [kept, List.forall_mem_append, List.forall_mem_append] at hkept
    obtain ⟨hcallee, harguments, hparen⟩ := hkept
    obtain ⟨hsound, hterm, hexpr⟩ := ih hcallee
    obtain ⟨hsounds, hterms, hexprs⟩ := allShown fun e he =>
      ihes e he fun t ht => harguments t (mem_keptByArguments he ht)
    have hplain := (hparen closingParen List.mem_cons_self).1.plain_of_paren hkind
    constructor
    case sound => exact ⟨by decide, hsound, hsounds⟩
    case term_plain => rw [mapTokens, term, term, mapTokensOfAll_eq, hterm, hterms]
    case expr_term =>
      rw [term, mapTokens, mapTokensOfAll_eq, Term.expr, Term.exprs, hexpr, hexprs,
        Term.combine_call, hplain]

theorem IsShown.text_append_inj {rest rest' : List Char} (h : e.IsShown) (h' : e'.IsShown)
    (hrest : StartsDelimited rest) (hrest' : StartsDelimited rest')
    (heq : e.term.text ++ rest = e'.term.text ++ rest') :
    e.mapTokens Token.plain = e'.mapTokens Token.plain ∧ rest = rest' := by
  obtain ⟨hterm, hrests⟩ := Term.text_append_inj h.sound h'.sound hrest hrest' heq
  rw [← h.expr_term, ← h'.expr_term, hterm]
  exact ⟨rfl, hrests⟩

theorem IsShown.text_eq_iff (h : e.IsShown) (h' : e'.IsShown) :
    e.term.text = e'.term.text ↔ e.mapTokens Token.plain = e'.mapTokens Token.plain := by
  constructor
  · intro heq
    have hnil : StartsDelimited [] := by simp [StartsDelimited]
    exact (h.text_append_inj h' hnil hnil (congrArg (· ++ []) heq)).1
  · intro heq
    rw [← h.term_plain, ← h'.term_plain, heq]

theorem IsShown.text_ne_nil (h : e.IsShown) : e.term.text ≠ [] := by
  have hsound := h.sound
  cases hterm : e.term with
  | word text =>
    rw [hterm] at hsound
    obtain ⟨c, rest, htext, -⟩ := hsound.2
    rw [Term.text, htext]
    exact List.cons_ne_nil c rest
  | _ => simp [Term.text]

end Expr

end ScriptSyntax
