import ScriptSyntax.Expr.Parser
/-! # The grammar of expressions

Which expressions the grammar derives, with which tokens each of them is written, and how deep it
nests. None of this speaks of parsers.
-/

namespace ScriptSyntax.Expr

/-! ## How tight an expression holds together -/

/-- How tight a binary operator binds, from 1 to 6. -/
def Precedence.rank : Precedence → Nat
  | disjunction => 1
  | conjunction => 2
  | equality => 3
  | comparison => 4
  | sum => 5
  | product => 6

theorem Precedence.rank_pos (precedence : Precedence) : 1 ≤ precedence.rank := by
  cases precedence <;> decide

theorem Precedence.rank_le (precedence : Precedence) : precedence.rank ≤ 6 := by
  cases precedence <;> decide

/-- Whether the operators of a precedence make logical expressions, and no binary ones. -/
def Precedence.isLogical : Precedence → Bool
  | disjunction | conjunction => true
  | _ => false

/-- How tight an expression holds together: an assignment least, then the operations by their
operators, a prefix operator, a call, and what is one token or in parentheses most. -/
def rank : Expr → Nat
  | assignment _ _ => 0
  | binary _ operator _ | logical _ operator _ =>
    ((Precedence.ofKind? operator.kind).map Precedence.rank).getD 0
  | unary _ _ => 7
  | call _ _ _ => 8
  | grouping _ | literal _ | reference _ => 9

/-- How tight a token of a kind holds on to an expression in front of it, where the expression goes
on with it. -/
def holdOf? : TokenKind → Option Nat
  | .equal => some 0
  | .leftParen => some 8
  | kind => (Precedence.ofKind? kind).map Precedence.rank

/-- An expression that holds together as tight as `rank` ends in front of these tokens. -/
def EndsBefore (rank : Nat) (tokens : List Token) : Prop :=
  ∀ t ∈ tokens.head?, ∀ hold, holdOf? t.kind = some hold → hold < rank

/-! ## What the grammar derives -/

/-- The literals that are one token. -/
def startsLiteral : TokenKind → Bool
  | .falseKeyword | .trueKeyword | .nilKeyword | .number | .string => true
  | _ => false

/-- The grammar derives an expression. Operands of one precedence group to the left: the left one
holds together at least as tight as the operator, the right one tighter. -/
inductive Derivable : Expr → Prop
  | binary {left right : Expr} {operator : Token} {precedence : Precedence}
      (kind : Precedence.ofKind? operator.kind = some precedence)
      (form : precedence.isLogical = false)
      (left_rank : precedence.rank ≤ left.rank) (right_rank : precedence.rank < right.rank)
      (left_derivable : Derivable left) (right_derivable : Derivable right) :
      Derivable (.binary left operator right)
  | logical {left right : Expr} {operator : Token} {precedence : Precedence}
      (kind : Precedence.ofKind? operator.kind = some precedence)
      (form : precedence.isLogical = true)
      (left_rank : precedence.rank ≤ left.rank) (right_rank : precedence.rank < right.rank)
      (left_derivable : Derivable left) (right_derivable : Derivable right) :
      Derivable (.logical left operator right)
  | grouping {inner : Expr} (inner_derivable : Derivable inner) : Derivable (.grouping inner)
  | unary {operator : Token} {operand : Expr}
      (kind : operator.kind = .bang ∨ operator.kind = .minus)
      (operand_rank : 7 ≤ operand.rank) (operand_derivable : Derivable operand) :
      Derivable (.unary operator operand)
  | literal {value : Token} (kind : startsLiteral value.kind = true) : Derivable (.literal value)
  | reference {name : Token} (kind : name.kind = .identifier) : Derivable (.reference name)
  | assignment {target : Token} {value : Expr} (kind : target.kind = .identifier)
      (value_derivable : Derivable value) : Derivable (.assignment target value)
  | call {callee : Expr} {arguments : List Expr} {closingParen : Token}
      (kind : closingParen.kind = .rightParen)
      (callee_rank : 8 ≤ callee.rank) (callee_derivable : Derivable callee)
      (arguments_derivable : ∀ e ∈ arguments, Derivable e) :
      Derivable (.call callee arguments closingParen)

/-! ## With which tokens an expression is written -/

mutual

/-- A row of tokens writes an expression. The tokens that the expression keeps stand in it at their
places, the others are of the kinds that the grammar asks for. -/
inductive Writes : Expr → List Token → Prop
  | binary {left right : Expr} {operator : Token} {ts us : List Token}
      (left_writes : Writes left ts) (right_writes : Writes right us) :
      Writes (.binary left operator right) (ts ++ operator :: us)
  | logical {left right : Expr} {operator : Token} {ts us : List Token}
      (left_writes : Writes left ts) (right_writes : Writes right us) :
      Writes (.logical left operator right) (ts ++ operator :: us)
  | grouping {inner : Expr} {opening closing : Token} {ts : List Token}
      (opening_kind : opening.kind = .leftParen) (inner_writes : Writes inner ts)
      (closing_kind : closing.kind = .rightParen) :
      Writes (.grouping inner) (opening :: ts ++ [closing])
  | unary {operator : Token} {operand : Expr} {ts : List Token}
      (operand_writes : Writes operand ts) : Writes (.unary operator operand) (operator :: ts)
  | literal {value : Token} : Writes (.literal value) [value]
  | reference {name : Token} : Writes (.reference name) [name]
  | assignment {target equals : Token} {value : Expr} {ts : List Token}
      (equals_kind : equals.kind = .equal) (value_writes : Writes value ts) :
      Writes (.assignment target value) (target :: equals :: ts)
  | call {callee : Expr} {arguments : List Expr} {opening closingParen : Token}
      {ts us : List Token} (callee_writes : Writes callee ts)
      (opening_kind : opening.kind = .leftParen) (arguments_write : WritesArguments arguments us) :
      Writes (.call callee arguments closingParen) (ts ++ opening :: us ++ [closingParen])

/-- A row of tokens writes arguments, with commas between them. -/
inductive WritesArguments : List Expr → List Token → Prop
  | none : WritesArguments [] []
  | one {e : Expr} {ts : List Token} (only_writes : Writes e ts) : WritesArguments [e] ts
  | more {e e' : Expr} {es : List Expr} {comma : Token} {ts us : List Token}
      (first_writes : Writes e ts) (comma_kind : comma.kind = .comma)
      (others_write : WritesArguments (e' :: es) us) :
      WritesArguments (e :: e' :: es) (ts ++ comma :: us)

end

/-! ## Which tokens an expression keeps -/

mutual

/-- The tokens that an expression keeps, in the order in which it is written. -/
def kept : Expr → List Token
  | binary left operator right | logical left operator right =>
    left.kept ++ operator :: right.kept
  | grouping inner => inner.kept
  | unary operator operand => operator :: operand.kept
  | literal value => [value]
  | reference name => [name]
  | assignment target value => target :: value.kept
  | call callee arguments closingParen =>
    callee.kept ++ (keptByArguments arguments ++ [closingParen])

def keptByArguments : List Expr → List Token
  | [] => []
  | e :: es => e.kept ++ keptByArguments es

end

theorem kept_ne_nil : ∀ e : Expr, e.kept ≠ []
  | grouping inner => kept_ne_nil inner
  | binary _ _ _ | logical _ _ _ | unary _ _ | literal _ | reference _ | assignment _ _
  | call _ _ _ => by simp [kept]

/-! ## How deep an expression nests -/

mutual

/-- How many groups, prefix operators, assigned values and arguments stand in one another. -/
def nesting : Expr → Nat
  | binary left _ right | logical left _ right => max left.nesting right.nesting
  | grouping inner => inner.nesting + 1
  | unary _ operand => operand.nesting + 1
  | literal _ | reference _ => 0
  | assignment _ value => value.nesting + 1
  | call callee arguments _ => max callee.nesting (nestingOfArguments arguments)

/-- Each argument counts as one more. -/
def nestingOfArguments : List Expr → Nat
  | [] => 0
  | e :: es => max (e.nesting + 1) (nestingOfArguments es)

end

/-! ## Where calls have too many arguments -/

mutual

/-- With how many tokens an expression is written. -/
def width : Expr → Nat
  | binary left _ right | logical left _ right => left.width + 1 + right.width
  | grouping inner => inner.width + 2
  | unary _ operand => operand.width + 1
  | literal _ | reference _ => 1
  | assignment _ value => value.width + 2
  | call callee arguments _ => callee.width + widthOfArguments arguments + 2

def widthOfArguments : List Expr → Nat
  | [] => 0
  | [e] => e.width
  | e :: e' :: es => e.width + 1 + widthOfArguments (e' :: es)

end

mutual

/-- The first token of each argument that is one too many, among the tokens that write an
expression. A call with more than `maxArguments` arguments has one such argument, others have
none. -/
def excess : Expr → List Token → List Token
  | binary left _ right, tokens | logical left _ right, tokens =>
    left.excess (tokens.take left.width) ++ right.excess (tokens.drop (left.width + 1))
  | grouping inner, tokens => inner.excess ((tokens.drop 1).take inner.width)
  | unary _ operand, tokens => operand.excess (tokens.drop 1)
  | literal _, _ | reference _, _ => []
  | assignment _ value, tokens => value.excess (tokens.drop 2)
  | call callee arguments _, tokens =>
    callee.excess (tokens.take callee.width) ++
      excessOfArguments 0 arguments
        ((tokens.drop (callee.width + 1)).take (widthOfArguments arguments))

/-- The same for the arguments behind `earlier` others. -/
def excessOfArguments (earlier : Nat) : List Expr → List Token → List Token
  | [], _ => []
  | e :: es, tokens =>
    (if earlier = maxArguments then tokens.head?.toList else []) ++
      (e.excess (tokens.take e.width) ++
        excessOfArguments (earlier + 1) es (tokens.drop (e.width + 1)))

end

/-! ## The expression that a binary operator makes -/

namespace Precedence

variable {precedence : Precedence}

theorem combine_eq_binary (h : precedence.isLogical = false) (left : Expr) (operator : Token)
    (right : Expr) : precedence.combine left operator right = binary left operator right := by
  cases precedence <;> first | rfl | contradiction

theorem combine_eq_logical (h : precedence.isLogical = true) (left : Expr) (operator : Token)
    (right : Expr) : precedence.combine left operator right = logical left operator right := by
  cases precedence <;> first | rfl | contradiction

theorem kept_combine (left : Expr) (operator : Token) (right : Expr) :
    (precedence.combine left operator right).kept = left.kept ++ operator :: right.kept := by
  cases precedence <;> rfl

theorem nesting_combine (left : Expr) (operator : Token) (right : Expr) :
    (precedence.combine left operator right).nesting = max left.nesting right.nesting := by
  cases precedence <;> rfl

theorem rank_combine {left right : Expr} {operator : Token}
    (h : ofKind? operator.kind = some precedence) :
    (precedence.combine left operator right).rank = precedence.rank := by
  cases precedence <;> simp [combine, Expr.rank, h]

theorem derivable_combine {left right : Expr} {operator : Token}
    (h : ofKind? operator.kind = some precedence) (hl : precedence.rank ≤ left.rank)
    (hr : precedence.rank < right.rank) (left_derivable : left.Derivable)
    (right_derivable : right.Derivable) :
    (precedence.combine left operator right).Derivable := by
  cases hform : precedence.isLogical with
  | false =>
    rw [combine_eq_binary hform]
    exact .binary h hform hl hr left_derivable right_derivable
  | true =>
    rw [combine_eq_logical hform]
    exact .logical h hform hl hr left_derivable right_derivable

theorem writes_combine_iff {left right : Expr} {operator : Token} {tokens : List Token} :
    (precedence.combine left operator right).Writes tokens ↔
      ∃ ts us, tokens = ts ++ operator :: us ∧ left.Writes ts ∧ right.Writes us := by
  cases hform : precedence.isLogical with
  | false =>
    rw [combine_eq_binary hform]
    constructor
    · rintro (_ | _)
      exact ⟨_, _, rfl, ‹_›, ‹_›⟩
    · rintro ⟨ts, us, rfl, hl, hr⟩
      exact .binary hl hr
  | true =>
    rw [combine_eq_logical hform]
    constructor
    · rintro (_ | _)
      exact ⟨_, _, rfl, ‹_›, ‹_›⟩
    · rintro ⟨ts, us, rfl, hl, hr⟩
      exact .logical hl hr

theorem width_combine (left : Expr) (operator : Token) (right : Expr) :
    (precedence.combine left operator right).width = left.width + 1 + right.width := by
  cases precedence <;> rfl

theorem excess_combine (left : Expr) (operator : Token) (right : Expr) (tokens : List Token) :
    (precedence.combine left operator right).excess tokens =
      left.excess (tokens.take left.width) ++ right.excess (tokens.drop (left.width + 1)) := by
  cases precedence <;> rfl

end Precedence

/-- What holds of derived expressions follows from what holds of their parts, binary and logical
operations taken together. -/
theorem Derivable.byOperation {motive : (e : Expr) → e.Derivable → Prop}
    (operation : ∀ {precedence : Precedence} {left right : Expr} {operator : Token}
      (kind : Precedence.ofKind? operator.kind = some precedence)
      (left_rank : precedence.rank ≤ left.rank) (right_rank : precedence.rank < right.rank)
      (hl : left.Derivable) (hr : right.Derivable), motive left hl → motive right hr →
      motive (precedence.combine left operator right)
        (Precedence.derivable_combine kind left_rank right_rank hl hr))
    (grouping : ∀ {inner : Expr} (h : inner.Derivable), motive inner h →
      motive (.grouping inner) (.grouping h))
    (unary : ∀ {operator : Token} {operand : Expr}
      (kind : operator.kind = .bang ∨ operator.kind = .minus) (operand_rank : 7 ≤ operand.rank)
      (h : operand.Derivable), motive operand h →
      motive (.unary operator operand) (.unary kind operand_rank h))
    (literal : ∀ {value : Token} (kind : startsLiteral value.kind = true),
      motive (.literal value) (.literal kind))
    (reference : ∀ {name : Token} (kind : name.kind = .identifier),
      motive (.reference name) (.reference kind))
    (assignment : ∀ {target : Token} {value : Expr} (kind : target.kind = .identifier)
      (h : value.Derivable), motive value h →
      motive (.assignment target value) (.assignment kind h))
    (call : ∀ {callee : Expr} {arguments : List Expr} {closingParen : Token}
      (kind : closingParen.kind = .rightParen) (callee_rank : 8 ≤ callee.rank)
      (h : callee.Derivable) (hes : ∀ e ∈ arguments, e.Derivable), motive callee h →
      (∀ e (he : e ∈ arguments), motive e (hes e he)) →
      motive (.call callee arguments closingParen) (.call kind callee_rank h hes))
    {e : Expr} (h : e.Derivable) : motive e h := by
  induction h with
  | @binary left right operator precedence kind form left_rank right_rank hl hr ihl ihr =>
    have := operation kind left_rank right_rank hl hr ihl ihr
    simpa only [Precedence.combine_eq_binary form] using this
  | @logical left right operator precedence kind form left_rank right_rank hl hr ihl ihr =>
    have := operation kind left_rank right_rank hl hr ihl ihr
    simpa only [Precedence.combine_eq_logical form] using this
  | grouping h ih => exact grouping h ih
  | unary kind operand_rank h ih => exact unary kind operand_rank h ih
  | literal kind => exact literal kind
  | reference kind => exact reference kind
  | assignment kind h ih => exact assignment kind h ih
  | call kind callee_rank h hes ih ihes => exact call kind callee_rank h hes ih ihes

/-! ## Arguments, one more at the end -/

theorem keptByArguments_append (es es' : List Expr) :
    keptByArguments (es ++ es') = keptByArguments es ++ keptByArguments es' := by
  induction es with
  | nil => rfl
  | cons e es ih => simp [keptByArguments, ih]

theorem nestingOfArguments_le_iff {es : List Expr} {n : Nat} :
    nestingOfArguments es ≤ n ↔ ∀ e ∈ es, e.nesting < n := by
  induction es with
  | nil => simp [nestingOfArguments]
  | cons e es ih =>
    rw [nestingOfArguments, Nat.max_le, Nat.add_one_le_iff, ih]
    simp

theorem WritesArguments.concat {es : List Expr} {e : Expr} {comma : Token} {ts us : List Token}
    (hes : WritesArguments es ts) (hne : es ≠ []) (hcomma : comma.kind = .comma)
    (he : e.Writes us) : WritesArguments (es ++ [e]) (ts ++ comma :: us) := by
  induction es generalizing ts with
  | nil => contradiction
  | cons first es ih =>
    cases hes with
    | one hfirst => exact .more hfirst hcomma (.one he)
    | more hfirst hcomma' hothers =>
      have := ih hothers (by simp)
      rw [List.append_assoc, List.cons_append]
      exact .more hfirst hcomma' this

end ScriptSyntax.Expr
