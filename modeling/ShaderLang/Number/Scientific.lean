import ShaderLang.Number.Binary32
import ShaderLang.Number.Integer
/-!
# Decimals in text

Reading of decimals: an optional sign, digits with or without a point, and an optional exponent.

## Main definitions

* `Binary32.ofText?` — the number nearest to a decimal
-/

namespace ShaderLang.Binary32

/-- The exponent of a decimal and its mark; nothing counts as zero. -/
def exponent? : List Char → Option Int
  | [] => some 0
  | e :: cs =>
    if e = 'e' ∨ e = 'E' then
      match cs with
      | '-' :: ds => (Number.natural? 10 ds).map fun n => -(n : Int)
      | '+' :: ds => (Number.natural? 10 ds).map fun n => (n : Int)
      | ds => (Number.natural? 10 ds).map fun n => (n : Int)
    else none

/-- The number nearest to a decimal without a sign. -/
def ofUnsigned? (negative : Bool) (cs : List Char) : Option Binary32 :=
  let whole := cs.takeWhile Char.isDigit
  let rest := cs.dropWhile Char.isDigit
  let pointed := rest.head? == some '.'
  let part := if pointed then rest.tail.takeWhile Char.isDigit else []
  let rest := if pointed then rest.tail.dropWhile Char.isDigit else rest
  if whole.isEmpty && part.isEmpty then none
  else do
    let n ← Number.digits? 10 (whole ++ part) 0
    let e ← exponent? rest
    some (ofDecimal negative n (e - part.length))

/-- The number nearest to a decimal. -/
def ofText? : List Char → Option Binary32
  | '-' :: cs => ofUnsigned? true cs
  | '+' :: cs => ofUnsigned? false cs
  | cs => ofUnsigned? false cs

end ShaderLang.Binary32
