import ScriptSyntax.Proofs.Grammar.Stmt
/-! # How high trees are

Operations of one precedence group to the left, and so do the calls of what was called: such a row
of operations or calls adds to the height of an expression, but not to its nesting. With each row
folded to one step the height depends on the nesting alone.
-/

namespace ScriptSyntax

theorem max_le_mul_max {a a' b b' n : Nat} (h : a ≤ n * b) (h' : a' ≤ n * b') :
    max a a' ≤ n * max b b' :=
  Nat.max_le.2 ⟨Nat.le_trans h (Nat.mul_le_mul_left n (Nat.le_max_left b b')),
    Nat.le_trans h' (Nat.mul_le_mul_left n (Nat.le_max_right b b'))⟩

namespace Expr

/-! ## Heights and rows -/

mutual

/-- How many expressions stand in one another, the whole one included. -/
def height : Expr → Nat
  | binary left _ right | logical left _ right => max left.height right.height + 1
  | grouping inner => inner.height + 1
  | unary _ operand => operand.height + 1
  | literal _ | reference _ => 1
  | assignment _ value => value.height + 1
  | call callee arguments _ => max callee.height (heightOfArguments arguments) + 1

def heightOfArguments : List Expr → Nat
  | [] => 0
  | e :: es => max e.height (heightOfArguments es)

end

/-- How many operations of one precedence, or calls, an expression is, each being the leftmost part
of the next one. -/
def rowLength : Expr → Nat
  | e@(binary left _ _) | e@(logical left _ _) | e@(call left _ _) =>
    if left.rank = e.rank then left.rowLength + 1 else 1
  | _ => 1

mutual

/-- The length of the longest row of operations or calls in an expression. -/
def longestRow : Expr → Nat
  | e@(binary left _ right) | e@(logical left _ right) =>
    max e.rowLength (max left.longestRow right.longestRow)
  | grouping inner => inner.longestRow
  | unary _ operand => operand.longestRow
  | literal _ | reference _ => 1
  | assignment _ value => value.longestRow
  | e@(call callee arguments _) =>
    max e.rowLength (max callee.longestRow (longestRowOfArguments arguments))

def longestRowOfArguments : List Expr → Nat
  | [] => 1
  | e :: es => max e.longestRow (longestRowOfArguments es)

end

mutual

/-- The height of what stands in the row that an expression is, where each row counts as one. -/
def foldedInside : Expr → Nat
  | e@(binary left _ right) | e@(logical left _ right) =>
    max (left.foldedInside + if left.rank = e.rank then 0 else 1) (right.foldedInside + 1)
  | grouping inner => inner.foldedInside + 1
  | unary _ operand => operand.foldedInside + 1
  | literal _ | reference _ => 0
  | assignment _ value => value.foldedInside + 1
  | e@(call callee arguments _) =>
    max (callee.foldedInside + if callee.rank = e.rank then 0 else 1)
      (foldedOfArguments arguments)

def foldedOfArguments : List Expr → Nat
  | [] => 0
  | e :: es => max (e.foldedInside + 1) (foldedOfArguments es)

end

/-- The height of an expression where each row counts as one. -/
def foldedHeight (e : Expr) : Nat := e.foldedInside + 1

/-! ## Rows make up for what folding takes away -/

theorem rowLength_pos (e : Expr) : 1 ≤ e.rowLength := by
  unfold rowLength
  split <;> first | (split <;> omega) | omega

theorem longestRow_pos : ∀ e : Expr, 1 ≤ e.longestRow
  | binary _ _ _ | logical _ _ _ | call _ _ _ =>
    Nat.le_trans (rowLength_pos _) (Nat.le_max_left _ _)
  | grouping inner => inner.longestRow_pos
  | unary _ operand => operand.longestRow_pos
  | literal _ | reference _ => Nat.le_refl 1
  | assignment _ value => value.longestRow_pos

theorem rowLength_le_longestRow (e : Expr) : e.rowLength ≤ e.longestRow := by
  cases e with
  | binary | logical | call => exact Nat.le_max_left _ _
  | grouping | unary | literal | reference | assignment => exact longestRow_pos _

theorem height_le_folded {n : Nat} {e : Expr} (hrow : e.longestRow ≤ n)
    (h : e.height ≤ e.rowLength + n * e.foldedInside) : e.height ≤ n * e.foldedHeight := by
  have := e.rowLength_le_longestRow
  rw [foldedHeight, Nat.mul_succ]
  omega

/-- What the leftmost part of a row adds to the height it adds to the length of the row, or to what
stands in the row where the part is a row of its own. -/
theorem height_row_le {n others foldedOthers : Nat} {left : Expr} (joined : Prop) [Decidable joined]
    (hrow : left.longestRow ≤ n) (hleft : left.height ≤ left.rowLength + n * left.foldedInside)
    (hothers : others ≤ n * foldedOthers) :
    max left.height others + 1 ≤ (if joined then left.rowLength + 1 else 1) +
      n * max (left.foldedInside + if joined then 0 else 1) foldedOthers := by
  have hfolded := height_le_folded hrow hleft
  rw [foldedHeight] at hfolded
  split
  · have hinside := Nat.mul_le_mul_left n (Nat.le_max_left left.foldedInside foldedOthers)
    have hbehind := Nat.mul_le_mul_left n (Nat.le_max_right left.foldedInside foldedOthers)
    show max left.height others + 1 ≤ left.rowLength + 1 + n * max left.foldedInside foldedOthers
    omega
  · have hinside := Nat.mul_le_mul_left n (Nat.le_max_left (left.foldedInside + 1) foldedOthers)
    have hbehind := Nat.mul_le_mul_left n (Nat.le_max_right (left.foldedInside + 1) foldedOthers)
    omega

mutual

theorem height_le_row {n : Nat} : ∀ e : Expr, e.longestRow ≤ n →
    e.height ≤ e.rowLength + n * e.foldedInside
  | binary left _ right, h | logical left _ right, h => by
    obtain ⟨-, hparts⟩ := Nat.max_le.1 h
    obtain ⟨hleft, hright⟩ := Nat.max_le.1 hparts
    exact height_row_le _ hleft (height_le_row left hleft)
      (height_le_folded hright (height_le_row right hright))
  | call callee arguments _, h => by
    obtain ⟨-, hparts⟩ := Nat.max_le.1 h
    obtain ⟨hcallee, harguments⟩ := Nat.max_le.1 hparts
    exact height_row_le _ hcallee (height_le_row callee hcallee)
      (heightOfArguments_le arguments harguments)
  | grouping part, h | unary _ part, h | assignment _ part, h => by
    have hpart : part.height ≤ n * (part.foldedInside + 1) :=
      height_le_folded h (height_le_row part h)
    show part.height + 1 ≤ 1 + n * (part.foldedInside + 1)
    omega
  | literal _, _ | reference _, _ => Nat.le_add_right 1 _

theorem heightOfArguments_le {n : Nat} : ∀ es : List Expr, longestRowOfArguments es ≤ n →
    heightOfArguments es ≤ n * foldedOfArguments es
  | [], _ => Nat.zero_le _
  | e :: es, h => by
    obtain ⟨he, hes⟩ := Nat.max_le.1 h
    have hfirst := height_le_folded he (height_le_row e he)
    have hothers := heightOfArguments_le es hes
    exact max_le_mul_max hfirst hothers

end

theorem height_le (e : Expr) : e.height ≤ e.longestRow * e.foldedHeight :=
  height_le_folded (Nat.le_refl _) (height_le_row e (Nat.le_refl _))

/-! ## The nesting bounds what is left -/

theorem foldedOfArguments_le_iff {es : List Expr} {n : Nat} :
    foldedOfArguments es ≤ n ↔ ∀ e ∈ es, e.foldedHeight ≤ n := by
  induction es with
  | nil => simp [foldedOfArguments]
  | cons e es ih =>
    rw [foldedOfArguments, Nat.max_le, ih]
    simp [foldedHeight]

theorem foldedInside_combine (precedence : Precedence) (left : Expr) (operator : Token)
    (right : Expr) :
    let e := precedence.combine left operator right
    e.foldedInside =
      max (left.foldedInside + if left.rank = e.rank then 0 else 1) (right.foldedInside + 1) := by
  cases precedence <;> rfl

/-- Parts of one level hold together tighter and tighter from the outside in, and there are ten ways
to hold together. -/
theorem Derivable.folded_add_rank_le {e : Expr} (h : e.Derivable) :
    e.foldedHeight + e.rank ≤ 10 * (e.nesting + 1) := by
  unfold foldedHeight
  induction h using Derivable.byOperation with
  | @operation precedence left right operator kind left_rank right_rank hl hr ihl ihr =>
    rw [foldedInside_combine, Precedence.nesting_combine, Precedence.rank_combine kind]
    have hleft := Nat.le_max_left left.nesting right.nesting
    have hright := Nat.le_max_right left.nesting right.nesting
    split <;> omega
  | @grouping inner h ih =>
    show inner.foldedInside + 1 + 1 + 9 ≤ 10 * (inner.nesting + 1 + 1)
    omega
  | @unary operator operand kind operand_rank h ih =>
    show operand.foldedInside + 1 + 1 + 7 ≤ 10 * (operand.nesting + 1 + 1)
    omega
  | literal | reference => exact Nat.le_refl 10
  | @assignment target value kind h ih =>
    show value.foldedInside + 1 + 1 + 0 ≤ 10 * (value.nesting + 1 + 1)
    omega
  | @call callee arguments closingParen kind callee_rank h hes ihcallee iharguments =>
    show max (callee.foldedInside + if callee.rank = 8 then 0 else 1)
      (foldedOfArguments arguments) + 1 + 8 ≤
        10 * (max callee.nesting (nestingOfArguments arguments) + 1)
    have hcallee := Nat.le_max_left callee.nesting (nestingOfArguments arguments)
    have harguments : foldedOfArguments arguments ≤ 10 * nestingOfArguments arguments := by
      refine foldedOfArguments_le_iff.2 fun e he => ?_
      have hfolded := iharguments e he
      have hnesting := nestingOfArguments_le_iff.1 (Nat.le_refl _) e he
      unfold foldedHeight
      omega
    have := Nat.le_max_right callee.nesting (nestingOfArguments arguments)
    split <;> omega

end Expr

namespace Stmt

mutual

/-- How high a statement is if `of` says how high the expressions in it are. -/
def heightBy (of : Expr → Nat) : Stmt → Nat
  | expression value | print value => of value + 1
  | var _ none => 1
  | var _ (some value) => of value + 1
  | block statements => heightOfAllBy of statements + 1
  | ifThen condition branch => max (of condition) (branch.heightBy of) + 1
  | ifElse condition branch alternative =>
    max (of condition) (max (branch.heightBy of) (alternative.heightBy of)) + 1

def heightOfAllBy (of : Expr → Nat) : List Stmt → Nat
  | [] => 0
  | s :: ss => max (s.heightBy of) (heightOfAllBy of ss)

end

/-- How many statements and expressions stand in one another, the whole one included. -/
def height : Stmt → Nat := heightBy Expr.height

/-- The height of a statement where each row in an expression counts as one. -/
def foldedHeight : Stmt → Nat := heightBy Expr.foldedHeight

mutual

/-- The length of the longest row of operations or calls in a statement. -/
def longestRow : Stmt → Nat
  | expression value | print value => value.longestRow
  | var _ none => 1
  | var _ (some value) => value.longestRow
  | block statements => longestRowOfAll statements
  | ifThen condition branch => max condition.longestRow branch.longestRow
  | ifElse condition branch alternative =>
    max condition.longestRow (max branch.longestRow alternative.longestRow)

def longestRowOfAll : List Stmt → Nat
  | [] => 1
  | s :: ss => max s.longestRow (longestRowOfAll ss)

end

mutual

theorem longestRow_pos : ∀ s : Stmt, 1 ≤ s.longestRow
  | expression value | print value | var _ (some value) => value.longestRow_pos
  | var _ none => Nat.le_refl 1
  | block statements => longestRowOfAll_pos statements
  | ifThen condition _ | ifElse condition _ _ =>
    Nat.le_trans condition.longestRow_pos (Nat.le_max_left _ _)

theorem longestRowOfAll_pos : ∀ ss : List Stmt, 1 ≤ longestRowOfAll ss
  | [] => Nat.le_refl 1
  | _ :: ss => Nat.le_trans (longestRowOfAll_pos ss) (Nat.le_max_right _ _)

end

theorem add_one_le {height folded n : Nat} (hn : 1 ≤ n) (h : height ≤ n * folded) :
    height + 1 ≤ n * (folded + 1) := by
  rw [Nat.mul_succ]
  omega

mutual

theorem height_le_mul {n : Nat} (hn : 1 ≤ n) : ∀ s : Stmt, s.longestRow ≤ n →
    s.height ≤ n * s.foldedHeight
  | expression value, h | print value, h | var _ (some value), h =>
    add_one_le hn (Nat.le_trans value.height_le (Nat.mul_le_mul_right _ h))
  | var _ none, _ => Nat.le_trans hn (Nat.le_mul_of_pos_right n Nat.one_pos)
  | block statements, h => add_one_le hn (heightOfAll_le_mul hn statements h)
  | ifThen condition branch, h => by
    obtain ⟨hcondition, hbranch⟩ := Nat.max_le.1 h
    have hcondition := Nat.le_trans condition.height_le (Nat.mul_le_mul_right _ hcondition)
    exact add_one_le hn (max_le_mul_max hcondition (height_le_mul hn branch hbranch))
  | ifElse condition branch alternative, h => by
    obtain ⟨hcondition, hbranches⟩ := Nat.max_le.1 h
    obtain ⟨hbranch, halternative⟩ := Nat.max_le.1 hbranches
    have hcondition := Nat.le_trans condition.height_le (Nat.mul_le_mul_right _ hcondition)
    have hbranches := max_le_mul_max (height_le_mul hn branch hbranch)
      (height_le_mul hn alternative halternative)
    exact add_one_le hn (max_le_mul_max hcondition hbranches)

theorem heightOfAll_le_mul {n : Nat} (hn : 1 ≤ n) : ∀ ss : List Stmt, longestRowOfAll ss ≤ n →
    heightOfAllBy Expr.height ss ≤ n * heightOfAllBy Expr.foldedHeight ss
  | [], _ => Nat.zero_le _
  | s :: ss, h => by
    obtain ⟨hs, hss⟩ := Nat.max_le.1 h
    exact max_le_mul_max (height_le_mul hn s hs) (heightOfAll_le_mul hn ss hss)

end

theorem height_le (s : Stmt) : s.height ≤ s.longestRow * s.foldedHeight :=
  height_le_mul s.longestRow_pos s (Nat.le_refl _)

theorem heightOfAllBy_le_iff {of : Expr → Nat} {ss : List Stmt} {n : Nat} :
    heightOfAllBy of ss ≤ n ↔ ∀ s ∈ ss, s.heightBy of ≤ n := by
  induction ss with
  | nil => simp [heightOfAllBy]
  | cons s ss ih =>
    rw [heightOfAllBy, Nat.max_le, ih]
    simp

theorem Derivable.folded_le {s : Stmt} (h : s.Derivable) :
    s.foldedHeight ≤ 10 * (s.nesting + 1) + 1 := by
  unfold foldedHeight
  induction h with
  | expression h | print h =>
    have := h.folded_add_rank_le
    unfold heightBy nesting
    omega
  | @var name initializer kind h =>
    cases initializer with
    | none => exact Nat.le_add_left 1 _
    | some value =>
      have := (h value rfl).folded_add_rank_le
      unfold heightBy nesting
      omega
  | @block statements h ih =>
    have hall : heightOfAllBy Expr.foldedHeight statements ≤
        10 * (nestingOfAll statements + 1) + 1 := by
      refine heightOfAllBy_le_iff.2 fun s hs => ?_
      have := ih s hs
      have := nestingOfAll_le_iff.1 (Nat.le_refl _) s hs
      omega
    unfold heightBy nesting
    omega
  | ifThen hcondition hbranch form ih =>
    have := hcondition.folded_add_rank_le
    unfold heightBy nesting
    omega
  | ifElse hcondition hbranch form closed halternative form' ih ih' =>
    have := hcondition.folded_add_rank_le
    unfold heightBy nesting
    omega

end Stmt

end ScriptSyntax
