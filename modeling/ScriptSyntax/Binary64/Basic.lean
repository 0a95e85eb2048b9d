import ScriptSyntax.Decimal
/-! # Double precision numbers

A number is held as its 64 bits: a sign, eleven bits of exponent and 52 of fraction. Every finite
number is a whole multiple of `2 ^ -1074`, so its size is a natural number of such units, and all
arithmetic on numbers is exact arithmetic on units.
-/

namespace ScriptSyntax

/-- A double precision number by its bits. -/
structure Binary64 where
  bits : UInt64
deriving DecidableEq, Repr

namespace Binary64

/-- The bits without the sign. They grow with the size of the number. -/
def magnitude (x : Binary64) : Nat := x.bits.toNat % Nat.pow 2 63

def isNegative (x : Binary64) : Bool := Nat.pow 2 63 ≤ x.bits.toNat

/-- The magnitude of infinity. What lies above it is no number. -/
def infinite : Nat := 2047 * Nat.pow 2 52

def isNaN (x : Binary64) : Bool := infinite < x.magnitude

def isFinite (x : Binary64) : Bool := x.magnitude < infinite

/-- How many units make one. -/
def unitsPerOne : Nat := Nat.pow 2 1074

/-- The size of the finite number with this magnitude, in units. Below `2 ^ 52` there is no hidden
bit, and the first two exponents have the same spacing. -/
def unitsOfMagnitude (magnitude : Nat) : Nat :=
  let exponent := magnitude / Nat.pow 2 52
  let fraction := magnitude % Nat.pow 2 52
  if exponent = 0 then fraction else (Nat.pow 2 52 + fraction) * Nat.pow 2 (exponent - 1)

/-- The size of a finite number, in units. -/
def units (x : Binary64) : Nat := unitsOfMagnitude x.magnitude

/-- The number without a sign that has this magnitude. -/
def ofMagnitude (magnitude : Nat) : Binary64 := ⟨UInt64.ofNat magnitude⟩

/-- The number without its sign. -/
def abs (x : Binary64) : Binary64 := ofMagnitude x.magnitude

/-- Whether a finite number has no fractional part. -/
def isIntegral (x : Binary64) : Bool := x.units % unitsPerOne = 0

/-- The whole number nearest to `n / d`, and the even one of two that are equally near. -/
def nearestEven (n d : Nat) : Nat :=
  let low := n / d
  let rest := n % d
  if 2 * rest < d then low
  else if d < 2 * rest then low + 1
  else low + low % 2

/-- The number nearest to `n / d`, and the even one of two that are equally near. The spacing of
numbers of that size is `2 ^ spacing` units, and each step of the spacing adds `2 ^ 52` to the
magnitude. What is too large is infinite. -/
def ofRatio (n d : Nat) : Binary64 :=
  let n := n * unitsPerOne
  let spacing := (n / d).log2 - 52
  ofMagnitude (min infinite (spacing * Nat.pow 2 52 + nearestEven n (d * Nat.pow 2 spacing)))

/-- Equality of numbers: zero has two signs, and what is no number equals nothing. -/
def agrees (x y : Binary64) : Bool :=
  !x.isNaN && !y.isNaN && (x.bits == y.bits || (x.magnitude == 0 && y.magnitude == 0))

end Binary64

/-- The double precision number nearest to a decimal fraction. -/
def Decimal.nearest (d : Decimal) : Binary64 :=
  Binary64.ofRatio d.digits (Nat.pow 10 d.places)

end ScriptSyntax
