import ShaderLang.Number.Binary32
/-!
# Shortest decimals

The text of a single precision number: the fewest digits that read back as the same number, and of
those the decimal nearest to it, a tie going up. It is written positionally, never with an
exponent, and a whole number without a point.

## Main definitions

* `Binary32.shortest` — the digits and the exponent of a positive finite number
* `Binary32.text` — the text of any number
-/

namespace ShaderLang
namespace Binary32

/-- A decimal `digits * 10 ^ exponent`. -/
structure Decimal where
  digits : Nat
  exponent : Int
  deriving DecidableEq

/-- The reals that round to a number, in quarters of the unit in its last place: those between
`low` and `high`, with both ends exactly when the significand is even. -/
structure Interval where
  low : Nat
  mid : Nat
  high : Nat
  closed : Bool

/-- The reals that round to a positive finite number. Below a power of two the numbers lie twice as
close, so that the lower gap is half as wide. -/
def interval (x : Binary32) : Interval :=
  let m := x.significand
  let low := if x.fraction = 0 ∧ 1 < x.exponentField then 4 * m - 1 else 4 * m - 2
  ⟨low, 4 * m, 4 * m + 2, m % 2 == 0⟩

/-- A point `p / d` lies in the interval, whose bounds are multiples of `u / d`. -/
def Interval.holds (i : Interval) (p u : Nat) : Bool :=
  if i.closed then i.low * u ≤ p && p ≤ i.high * u else i.low * u < p && p < i.high * u

/-- The exponent of the greatest power of ten that is at most `n / d`, for numbers in the range of
the format. -/
def floorLog10 (n d : Nat) : Int :=
  let steps := (List.range 90).map fun (k : Nat) => (39 : Int) - k
  (steps.find? fun k => power 10 k * d ≤ n * power 10 (-k)).getD (-50)

/-- The decimal with the step `10 ^ k` that lies in the interval nearest to its middle, if there is
one. Only the two neighbours of the middle on that grid can be it. -/
def neighbour? (i : Interval) (scale k : Int) : Option Decimal :=
  -- The unit `2 ^ (scale - 2)` and the step `10 ^ k` over one denominator.
  let u := power 2 (scale - 2) * power 10 (-k)
  let step := power 10 k * power 2 (2 - scale)
  let v := i.mid * u
  let below := v / step
  let above := below + 1
  match i.holds (below * step) u, i.holds (above * step) u with
  | true, true => some ⟨if 2 * (v - below * step) < step then below else above, k⟩
  | true, false => some ⟨below, k⟩
  | false, true => some ⟨above, k⟩
  | false, false => none

/-- The shortest decimal of a positive finite number: the first grid with a hit, from one digit to
nine. -/
def shortest (x : Binary32) : Decimal :=
  let i := x.interval
  let top := floorLog10 (i.mid * power 2 (x.scale - 2)) (power 2 (2 - x.scale))
  let grids := (List.range 9).map fun (n : Nat) => top - n
  (grids.findSome? fun k => neighbour? i x.scale k).getD ⟨0, 0⟩

/-- A decimal without an exponent: zeros are filled in on either side, and none is left behind the
point. -/
def Decimal.positional (d : Decimal) : String :=
  let ds := Nat.toDigits 10 d.digits
  if 0 ≤ d.exponent then String.ofList (ds ++ List.replicate d.exponent.toNat '0')
  else
    let places := (-d.exponent).toNat
    let padded := List.replicate (places + 1 - ds.length) '0' ++ ds
    let whole := padded.take (padded.length - places)
    let part := ((padded.drop (padded.length - places)).reverse.dropWhile (· == '0')).reverse
    String.ofList (if part.isEmpty then whole else whole ++ '.' :: part)

/-- The text of a number. -/
def text (x : Binary32) : String :=
  if x.isNaN then "NaN"
  else
    let magnitude :=
      if x.isInfinite then "inf"
      else if x.isZero then "0"
      else x.shortest.positional
    if x.negative then "-" ++ magnitude else magnitude

end Binary32

instance : ToString Binary32 := ⟨Binary32.text⟩

end ShaderLang
