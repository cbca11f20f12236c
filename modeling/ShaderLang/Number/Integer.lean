import ShaderLang.Number.Word
/-!
# Integers in text

Reading of whole numbers that must fit a range. A number is an optional sign and at least one
digit, with nothing before, between or after.

## Main definitions

* `Number.natural?` — the value of a nonempty row of digits
* `Number.integer?` — a signed number within bounds
* `Number.unsigned?` — a number without a minus sign, within a bound
* `Number.signed32` — a number cut to 32 bits
-/

namespace ShaderLang.Number

/-- The value of a digit: `0` to `9`, then the letters of either case from ten on. -/
def digit? (base : Nat) (c : Char) : Option Nat :=
  let n := c.toNat
  let v :=
    if 48 ≤ n ∧ n ≤ 57 then n - 48
    else if 97 ≤ n ∧ n ≤ 122 then n - 87
    else if 65 ≤ n ∧ n ≤ 90 then n - 55
    else base
  if v < base then some v else none

/-- Goes on reading digits after the value `acc`. -/
def digits? (base : Nat) : List Char → Nat → Option Nat
  | [], acc => some acc
  | c :: cs, acc => (digit? base c).bind fun v => digits? base cs (acc * base + v)

/-- The value of a nonempty row of digits. -/
def natural? (base : Nat) : List Char → Option Nat
  | [] => none
  | cs => digits? base cs 0

/-- A value, if it lies in the range from `lo` to `hi`. -/
def within? (lo hi n : Int) : Option Int := if lo ≤ n ∧ n ≤ hi then some n else none

/-- A number with an optional sign, if it lies in the range from `lo` to `hi`. -/
def integer? (base : Nat) (lo hi : Int) : List Char → Option Int
  | '-' :: cs => (natural? base cs).bind fun n => within? lo hi (-(n : Int))
  | '+' :: cs => (natural? base cs).bind fun n => within? lo hi n
  | cs => (natural? base cs).bind fun n => within? lo hi n

/-- A number with an optional plus sign, if it is at most `hi`. -/
def unsigned? (hi : Nat) (cs : List Char) : Option Nat :=
  let ds := match cs with
    | '+' :: cs => cs
    | cs => cs
  (natural? 10 ds).bind fun n => if n ≤ hi then some n else none

/-- The range of 32-bit integers: `read32 base` reads a signed number in it. -/
def read32 (base : Nat) (cs : List Char) : Option Int :=
  integer? base (-2147483648) 2147483647 cs

/-- The range of 64-bit integers: `read64 base` reads a signed number in it. -/
def read64 (base : Nat) (cs : List Char) : Option Int :=
  integer? base (-9223372036854775808) 9223372036854775807 cs

/-- The integer that the low 32 bits of a number write, the highest one being the sign. -/
def signed32 (n : Nat) : Int := Int.bmod n (Word.limit 4)

theorem within?_eq_some_iff {lo hi n m : Int} :
    within? lo hi n = some m ↔ n = m ∧ lo ≤ n ∧ n ≤ hi := by
  unfold within?
  split <;> grind

end ShaderLang.Number
