/-! # Decimal fractions

A decimal fraction is a row of digits with a point before the last few of them. It is written with
at least one digit on each side of the point.
-/

namespace ScriptSyntax

/-- The number `digits / 10 ^ places`. -/
structure Decimal where
  digits : Nat
  places : Nat
deriving DecidableEq, Repr

namespace Decimal

/-- The value of a row of decimal digits, read behind the digits of `n`. -/
def readDigits (n : Nat) (text : List Char) : Nat :=
  text.foldl (fun n c => 10 * n + (c.toNat - '0'.toNat)) n

/-- Reads digits, and a point with further digits if there is one. -/
def ofText (text : List Char) : Decimal :=
  let whole := text.takeWhile Char.isDigit
  let fraction := (text.dropWhile Char.isDigit).drop 1
  ⟨readDigits (readDigits 0 whole) fraction, fraction.length⟩

/-- The digits before the point, the point, and as many digits behind it as there are places. -/
def text (d : Decimal) : List Char :=
  Nat.toDigits 10 (d.digits / Nat.pow 10 d.places) ++
    '.' :: (Nat.toDigits 10 (d.digits % Nat.pow 10 d.places)).leftpad d.places '0'

end Decimal

end ScriptSyntax
