/-!
# Single precision numbers

Numbers in the 32-bit binary interchange format, kept as their bits: a sign bit, eight exponent
bits and 23 fraction bits. No arithmetic is done on them; a number is rounded once, from a decimal
text or an integer, and later truncated to an integer or written out.

## Main definitions

* `Binary32` — a number, as its bits
* `Binary32.ofRatio` — the nearest number to a quotient, a tie going to the even neighbour
* `Binary32.ofDecimal`, `Binary32.ofInt` — the nearest number to a decimal, and to an integer
* `Binary32.toInt32` — truncation toward zero, clamped to the 32-bit integers
-/

namespace ShaderLang

/-- A number in the 32-bit binary format, as its bits. Two numbers are the same when their bits
are. -/
structure Binary32 where
  bits : UInt32
  deriving DecidableEq, Inhabited

/-- The quotient `n / d` rounded to the nearest natural number, a half to the even neighbour. -/
def roundQuotient (n d : Nat) : Nat :=
  let q := n / d
  let r := n % d
  if 2 * r < d then q else if d < 2 * r then q + 1 else q + q % 2

/-- The power of a base, where the exponent is not below zero, and one otherwise. So a quotient
`n / d` is `base ^ e` times as great when `n` is multiplied by `power base e` and `d` by
`power base (-e)`. -/
def power (base : Nat) (e : Int) : Nat := Nat.pow base e.toNat

/-- The exponent of the greatest power of two that is at most `n / d`. -/
def floorLog2 (n d : Nat) : Int :=
  let k : Int := (n.log2 : Int) - d.log2
  if d * power 2 k ≤ n * power 2 (-k) then k else k - 1

namespace Binary32

/-- How many fractions there are: two to the power of 23. -/
def fractionCount : Nat := 0x800000

/-- The sign bit alone. -/
def signBit : Nat := 0x80000000

/-- The bits of infinity; a magnitude that would need more is infinite. -/
def infinityBits : Nat := 0x7F800000

/-- The magnitude bits of the number nearest to `n / d`. With the unit `2 ^ e` in the last place,
`e` at least `-149`, the rounded count of units lands on the right bits also when it reaches the
next power of two. -/
def magnitude (n d : Nat) : Nat :=
  if n = 0 then 0 else
    let e : Int := max (floorLog2 n d - 23) (-149)
    let q := roundQuotient (n * power 2 (-e)) (d * power 2 e)
    min ((e + 149).toNat * fractionCount + q) infinityBits

/-- A number with the given sign and magnitude bits. -/
def ofMagnitude (negative : Bool) (m : Nat) : Binary32 :=
  ⟨UInt32.ofNat (if negative then m + signBit else m)⟩

/-- The number nearest to `n / d`, with the given sign. -/
def ofRatio (negative : Bool) (n d : Nat) : Binary32 := ofMagnitude negative (magnitude n d)

/-- The number nearest to `digits * 10 ^ exponent`. A value of `10 ^ 40` or more is infinite, and
one below `10 ^ -50` is zero, so that no power beyond those is ever built. -/
def ofDecimal (negative : Bool) (digits : Nat) (exponent : Int) : Binary32 :=
  let length : Int := (Nat.toDigits 10 digits).length
  if digits = 0 ∨ exponent + length < -50 then ofMagnitude negative 0
  else if 40 < exponent + length then ofMagnitude negative infinityBits
  else ofRatio negative (digits * power 10 exponent) (power 10 (-exponent))

/-- The number nearest to an integer. -/
def ofInt (n : Int) : Binary32 := ofRatio (n < 0) n.natAbs 1

/-- The sign bit is set. -/
def negative (x : Binary32) : Bool := signBit ≤ x.bits.toNat

/-- The biased exponent. -/
def exponentField (x : Binary32) : Nat := x.bits.toNat / fractionCount % 256

/-- The fraction. -/
def fraction (x : Binary32) : Nat := x.bits.toNat % fractionCount

/-- The number is not a number. -/
def isNaN (x : Binary32) : Bool := x.exponentField == 255 && x.fraction != 0

/-- The number is infinite. -/
def isInfinite (x : Binary32) : Bool := x.exponentField == 255 && x.fraction == 0

/-- The significand of a finite number: its magnitude is this many units of `2 ^ x.scale`. -/
def significand (x : Binary32) : Nat :=
  if x.exponentField = 0 then x.fraction else x.fraction + fractionCount

/-- The exponent of the unit in the last place of a finite number. -/
def scale (x : Binary32) : Int := max x.exponentField 1 - 150

/-- The number truncated toward zero and clamped to the 32-bit integers; what is not a number
gives zero. -/
def toInt32 (x : Binary32) : Int :=
  if x.isNaN then 0
  else if x.isInfinite then if x.negative then -2147483648 else 2147483647
  else
    let m : Int := (x.significand * power 2 x.scale / power 2 (-x.scale) : Nat)
    if x.negative then max (-m) (-2147483648) else min m 2147483647

/-- Zero. -/
def zero : Binary32 := ⟨0⟩

/-- One. -/
def one : Binary32 := ⟨0x3F800000⟩

/-- The greatest finite number. -/
def greatest : Binary32 := ⟨0x7F7FFFFF⟩

/-- The least finite number. -/
def least : Binary32 := ⟨0xFF7FFFFF⟩

/-- The sign bits of the two zeros aside, the number is zero. -/
def isZero (x : Binary32) : Bool := x.exponentField == 0 && x.fraction == 0

example : ofDecimal false 1 0 = one := by decide +kernel
example : ofDecimal true 5 (-1) = ⟨0xBF000000⟩ := by decide +kernel
example : ofDecimal false 16777217 0 = ⟨0x4B800000⟩ := by decide +kernel
example : ofDecimal false 1 (-45) = ⟨1⟩ := by decide +kernel
example : ofDecimal false 1 39 = ⟨0x7F800000⟩ := by decide +kernel
example : (ofDecimal true 25 (-1)).toInt32 = -2 := by decide +kernel

end Binary32
end ShaderLang
