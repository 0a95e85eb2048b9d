import ScriptSyntax.Binary64.Basic
/-! # The decimal text of a number

A whole number is written exactly, with one zero behind the point. Any other finite number is
written with the fewest places that read back as the same number.
-/

namespace ScriptSyntax.Binary64

/-- The whole numbers next below and above the size of `x` times `10 ^ places`, the nearer one
first, and the upper one first if both are equally near. -/
def neighbours (x : Binary64) (places : Nat) : List Nat :=
  let scaled := x.units * Nat.pow 10 places
  let low := scaled / unitsPerOne
  if 2 * (scaled % unitsPerOne) < unitsPerOne then [low, low + 1] else [low + 1, low]

/-- The decimal fraction with this many places that is nearest to the size of `x` among those that
read back as it. -/
def decimalAt? (x : Binary64) (places : Nat) : Option Decimal :=
  ((neighbours x places).map (⟨·, places⟩)).find? fun d => d.nearest = x.abs

/-- The exact size of a finite number. -/
def exactDecimal (x : Binary64) : Decimal :=
  ⟨x.units * Nat.pow 5 1074, 1074⟩

/-- A decimal fraction for the size of a finite number that is not whole. -/
def shortestDecimal (x : Binary64) : Decimal :=
  ((List.range' 1 1074).findSome? (decimalAt? x)).getD x.exactDecimal

/-- The decimal fraction by which the size of a finite number is written. -/
def toDecimal (x : Binary64) : Decimal :=
  if x.isIntegral then ⟨x.units / unitsPerOne * 10, 1⟩ else x.shortestDecimal

/-- The text of a number: a finite one as a decimal fraction, never with an exponent. -/
def text (x : Binary64) : List Char :=
  if x.isNaN then "NaN".toList
  else
    let size := if x.isFinite then x.toDecimal.text else "inf".toList
    if x.isNegative then '-' :: size else size

end ScriptSyntax.Binary64
