import ScriptSyntax.Proofs.Grammar.Expr
import ScriptSyntax.Stmt.Basic
/-! # The grammar of statements

Which statements the grammar derives, with which tokens each of them is written, and how deep it
nests.
-/

namespace ScriptSyntax.Stmt

/-! ## What the grammar derives -/

/-- Whether a statement declares a variable. -/
def isVariable : Stmt → Bool
  | var _ _ => true
  | _ => false

/-- Whether a statement ends with a conditional that has no alternative, to which an `else` behind it
would belong. -/
def endsOpen : Stmt → Bool
  | ifThen _ _ => true
  | ifElse _ _ alternative => alternative.endsOpen
  | _ => false

/-- The grammar derives a statement. A branch declares no variable, and a branch in front of `else`
leaves no conditional open. -/
inductive Derivable : Stmt → Prop
  | expression {value : Expr} (value_derivable : value.Derivable) : Derivable (.expression value)
  | print {value : Expr} (value_derivable : value.Derivable) : Derivable (.print value)
  | var {name : Token} {initializer : Option Expr} (kind : name.kind = .identifier)
      (initializer_derivable : ∀ e ∈ initializer, e.Derivable) : Derivable (.var name initializer)
  | block {statements : List Stmt} (statements_derivable : ∀ s ∈ statements, Derivable s) :
      Derivable (.block statements)
  | ifThen {condition : Expr} {branch : Stmt} (condition_derivable : condition.Derivable)
      (branch_derivable : Derivable branch) (branch_form : branch.isVariable = false) :
      Derivable (.ifThen condition branch)
  | ifElse {condition : Expr} {branch alternative : Stmt}
      (condition_derivable : condition.Derivable)
      (branch_derivable : Derivable branch) (branch_form : branch.isVariable = false)
      (branch_closed : branch.endsOpen = false)
      (alternative_derivable : Derivable alternative)
      (alternative_form : alternative.isVariable = false) :
      Derivable (.ifElse condition branch alternative)

/-! ## With which tokens a statement is written -/

mutual

/-- A row of tokens writes a statement. -/
inductive Writes : Stmt → List Token → Prop
  | expression {value : Expr} {ts : List Token} {semicolon : Token}
      (value_writes : value.Writes ts) (semicolon_kind : semicolon.kind = .semicolon) :
      Writes (.expression value) (ts ++ [semicolon])
  | print {keyword : Token} {value : Expr} {ts : List Token} {semicolon : Token}
      (keyword_kind : keyword.kind = .printKeyword) (value_writes : value.Writes ts)
      (semicolon_kind : semicolon.kind = .semicolon) :
      Writes (.print value) (keyword :: ts ++ [semicolon])
  | varOnly {keyword name semicolon : Token} (keyword_kind : keyword.kind = .varKeyword)
      (semicolon_kind : semicolon.kind = .semicolon) :
      Writes (.var name none) [keyword, name, semicolon]
  | varWith {keyword name equals : Token} {value : Expr} {ts : List Token} {semicolon : Token}
      (keyword_kind : keyword.kind = .varKeyword) (equals_kind : equals.kind = .equal)
      (value_writes : value.Writes ts) (semicolon_kind : semicolon.kind = .semicolon) :
      Writes (.var name (some value)) (keyword :: name :: equals :: ts ++ [semicolon])
  | block {opening : Token} {statements : List Stmt} {ts : List Token} {closing : Token}
      (opening_kind : opening.kind = .leftBrace) (statements_write : WritesAll statements ts)
      (closing_kind : closing.kind = .rightBrace) :
      Writes (.block statements) (opening :: ts ++ [closing])
  | ifThen {keyword opening : Token} {condition : Expr} {ts : List Token} {closing : Token}
      {branch : Stmt} {us : List Token} (keyword_kind : keyword.kind = .ifKeyword)
      (opening_kind : opening.kind = .leftParen) (condition_writes : condition.Writes ts)
      (closing_kind : closing.kind = .rightParen) (branch_writes : Writes branch us) :
      Writes (.ifThen condition branch) (keyword :: opening :: ts ++ closing :: us)
  | ifElse {keyword opening : Token} {condition : Expr} {ts : List Token} {closing : Token}
      {branch : Stmt} {us : List Token} {keyword' : Token} {alternative : Stmt} {vs : List Token}
      (keyword_kind : keyword.kind = .ifKeyword) (opening_kind : opening.kind = .leftParen)
      (condition_writes : condition.Writes ts) (closing_kind : closing.kind = .rightParen)
      (branch_writes : Writes branch us) (keyword'_kind : keyword'.kind = .elseKeyword)
      (alternative_writes : Writes alternative vs) :
      Writes (.ifElse condition branch alternative)
        (keyword :: opening :: ts ++ closing :: us ++ keyword' :: vs)

/-- A row of tokens writes statements, one behind the other. -/
inductive WritesAll : List Stmt → List Token → Prop
  | nil : WritesAll [] []
  | cons {s : Stmt} {ss : List Stmt} {ts us : List Token} (first_writes : Writes s ts)
      (others_write : WritesAll ss us) : WritesAll (s :: ss) (ts ++ us)

end

/-! ## Which tokens a statement keeps -/

mutual

/-- The tokens that a statement keeps, in the order in which it is written. -/
def kept : Stmt → List Token
  | expression value | print value => value.kept
  | var name none => [name]
  | var name (some value) => name :: value.kept
  | block statements => keptByAll statements
  | ifThen condition branch => condition.kept ++ branch.kept
  | ifElse condition branch alternative => condition.kept ++ (branch.kept ++ alternative.kept)

def keptByAll : List Stmt → List Token
  | [] => []
  | s :: ss => s.kept ++ keptByAll ss

end

/-! ## How deep a statement nests -/

mutual

/-- How many blocks, conditionals, and what nests in expressions stand in one another. -/
def nesting : Stmt → Nat
  | expression value | print value => value.nesting
  | var _ none => 0
  | var _ (some value) => value.nesting
  | block statements => nestingOfAll statements + 1
  | ifThen condition branch => max condition.nesting branch.nesting + 1
  | ifElse condition branch alternative =>
    max condition.nesting (max branch.nesting alternative.nesting) + 1

/-- The depth of the deepest one. -/
def nestingOfAll : List Stmt → Nat
  | [] => 0
  | s :: ss => max s.nesting (nestingOfAll ss)

end

/-! ## Where calls have too many arguments -/

mutual

/-- With how many tokens a statement is written. -/
def width : Stmt → Nat
  | expression value => value.width + 1
  | print value => value.width + 2
  | var _ none => 3
  | var _ (some value) => value.width + 4
  | block statements => widthOfAll statements + 2
  | ifThen condition branch => condition.width + 3 + branch.width
  | ifElse condition branch alternative =>
    condition.width + 3 + branch.width + 1 + alternative.width

def widthOfAll : List Stmt → Nat
  | [] => 0
  | s :: ss => s.width + widthOfAll ss

end

mutual

/-- The first token of each argument that is one too many, among the tokens that write a
statement. -/
def excess : Stmt → List Token → List Token
  | expression value, tokens => value.excess (tokens.take value.width)
  | print value, tokens => value.excess ((tokens.drop 1).take value.width)
  | var _ none, _ => []
  | var _ (some value), tokens => value.excess ((tokens.drop 3).take value.width)
  | block statements, tokens =>
    excessOfAll statements ((tokens.drop 1).take (widthOfAll statements))
  | ifThen condition branch, tokens =>
    condition.excess ((tokens.drop 2).take condition.width) ++
      branch.excess (tokens.drop (condition.width + 3))
  | ifElse condition branch alternative, tokens =>
    condition.excess ((tokens.drop 2).take condition.width) ++
      (branch.excess ((tokens.drop (condition.width + 3)).take branch.width) ++
        alternative.excess (tokens.drop (condition.width + 3 + branch.width + 1)))

def excessOfAll : List Stmt → List Token → List Token
  | [], _ => []
  | s :: ss, tokens => s.excess (tokens.take s.width) ++ excessOfAll ss (tokens.drop s.width)

end

/-! ## Statements in a row -/

theorem keptByAll_append (ss ss' : List Stmt) :
    keptByAll (ss ++ ss') = keptByAll ss ++ keptByAll ss' := by
  induction ss with
  | nil => rfl
  | cons s ss ih => simp [keptByAll, ih]

theorem nestingOfAll_le_iff {ss : List Stmt} {n : Nat} :
    nestingOfAll ss ≤ n ↔ ∀ s ∈ ss, s.nesting ≤ n := by
  induction ss with
  | nil => simp [nestingOfAll]
  | cons s ss ih =>
    rw [nestingOfAll, Nat.max_le, ih]
    simp

theorem WritesAll.append {ss ss' : List Stmt} {ts us : List Token} (hss : WritesAll ss ts)
    (hss' : WritesAll ss' us) : WritesAll (ss ++ ss') (ts ++ us) := by
  induction ss generalizing ts with
  | nil =>
    cases hss
    exact hss'
  | cons s ss ih =>
    cases hss with
    | cons hfirst hothers =>
      rw [List.append_assoc]
      exact .cons hfirst (ih hothers)

end ScriptSyntax.Stmt
