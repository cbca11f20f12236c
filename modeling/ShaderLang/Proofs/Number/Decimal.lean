import Mathlib.Data.List.TakeWhile
import ShaderLang.Number.Scientific
/-!
# Decimal integers in text

A row of decimal digits has the value of its digits, and only digits have one. So a decimal integer
is an optional sign and digits; it is read as an integer, and where decimals of any kind are read it
is read as the single precision number nearest to it.

## Main definitions

* `Number.Numeral` — a decimal integer of 32 bits, as it is written
* `Number.Numeral.single` — the single precision number that it is read as

## Main results

* `Number.digits?_eq_some_iff` — the value of a row of digits
* `Number.Numeral.ofText?_text` — a decimal integer where any decimal may stand
* `Number.read32_toString` — an integer is read as it is written
-/

namespace ShaderLang

namespace Number

variable {c : Char} {cs : List Char} {n acc : Nat} {k lo hi : Int}

/-! ## Rows of digits -/

theorem digit?_ten (c : Char) : digit? 10 c = if c.isDigit then some (c.toNat - 48) else none := by
  have hdigit : c.isDigit = true ↔ 48 ≤ c.toNat ∧ c.toNat ≤ 57 := Char.isDigit_iff_toNat
  unfold digit?
  dsimp only
  by_cases h : 48 ≤ c.toNat ∧ c.toNat ≤ 57
  · rw [if_pos h, if_pos (hdigit.2 h), if_pos (by omega)]
  · rw [if_neg h, if_neg (fun hc => h (hdigit.1 hc)), if_neg]
    split
    · omega
    · split <;> omega

/-- A row of digits has the value of its digits, and nothing else has a value. -/
theorem digits?_eq_some_iff :
    digits? 10 cs acc = some n ↔
      (∀ c ∈ cs, c.isDigit = true) ∧ Nat.ofDigitChars 10 cs acc = n := by
  induction cs generalizing acc with
  | nil => simp [digits?]
  | cons c cs ih =>
    rw [digits?, digit?_ten, List.forall_mem_cons, Nat.ofDigitChars_cons]
    by_cases hc : c.isDigit
    · rw [if_pos hc, Option.bind_some, ih, Nat.mul_comm]
      simp [hc]
    · simp [hc]

theorem natural?_eq_some_iff :
    natural? 10 cs = some n ↔
      cs ≠ [] ∧ (∀ c ∈ cs, c.isDigit = true) ∧ Nat.ofDigitChars 10 cs 0 = n := by
  cases cs with
  | nil => simp [natural?]
  | cons c cs =>
    rw [natural?]
    · simp [digits?_eq_some_iff]
    · exact nofun

/-! ## Decimal integers -/

/-- A decimal integer of 32 bits, as it is written. -/
structure Numeral where
  text : List Char
  value : Int
  reads : read32 10 text = some value

/-- The signs that a decimal integer may have. -/
def signs : List (List Char) := [[], ['+'], ['-']]

/-- A decimal integer of 32 bits is an optional sign and a row of digits. -/
theorem exists_of_read32 (h : read32 10 cs = some k) :
    ∃ sign ∈ signs, ∃ ds n, cs = sign ++ ds ∧ natural? 10 ds = some n ∧
      k = (if sign = ['-'] then -(n : Int) else n) ∧ -2147483648 ≤ k ∧ k ≤ 2147483647 := by
  have hread {sign : List Char} {ds : List Char} {value : Nat → Int} (hsign : sign ∈ signs)
      (hvalue : ∀ n, value n = if sign = ['-'] then -(n : Int) else n)
      (hk : (natural? 10 ds).bind (fun n => within? (-2147483648) 2147483647 (value n)) = some k) :
      ∃ sign' ∈ signs, ∃ ds' n, sign ++ ds = sign' ++ ds' ∧ natural? 10 ds' = some n ∧
        k = (if sign' = ['-'] then -(n : Int) else n) ∧ -2147483648 ≤ k ∧ k ≤ 2147483647 := by
    obtain ⟨n, hn, hwithin⟩ := Option.bind_eq_some_iff.1 hk
    obtain ⟨rfl, hlow, hhigh⟩ := within?_eq_some_iff.1 hwithin
    exact ⟨sign, hsign, ds, n, rfl, hn, hvalue n, hlow, hhigh⟩
  unfold read32 integer? at h
  split at h
  · exact @hread ['-'] _ _ (by decide) (fun n => (if_pos rfl).symm) h
  · exact @hread ['+'] _ _ (by decide) (fun n => (if_neg (by decide)).symm) h
  · exact @hread [] _ _ (by decide) (fun n => (if_neg (by decide)).symm) h

theorem natural?_toDigits (n : Nat) : natural? 10 (Nat.toDigits 10 n) = some n := by
  refine natural?_eq_some_iff.2 ⟨Nat.toDigits_ne_nil, fun c hc => ?_, Nat.ofDigitChars_ten_toDigits⟩
  exact Nat.isDigit_of_mem_toDigits (by decide) (by decide) hc

/-- A row of digits starts with no sign. -/
theorem head_of_natural? (h : natural? 10 cs = some n) :
    cs.head? ≠ some '-' ∧ cs.head? ≠ some '+' := by
  obtain ⟨-, hdigits, -⟩ := natural?_eq_some_iff.1 h
  constructor <;>
  · intro hsign
    exact absurd (hdigits _ (List.mem_of_head? hsign)) (by decide)

/-- A text that starts with a digit has no sign. -/
theorem integer?_of_natural? (h : natural? 10 cs = some n) (lo hi : Int) :
    integer? 10 lo hi cs = within? lo hi n := by
  obtain ⟨hminus, hplus⟩ := head_of_natural? h
  unfold integer?
  split
  · exact absurd rfl hminus
  · exact absurd rfl hplus
  · rw [h, Option.bind_some]

/-- An integer is written as its digits, with a minus sign if it is negative. -/
theorem exists_toList_toString (k : Int) :
    ∃ ds, natural? 10 ds = some k.natAbs ∧
      (toString k).toList = if k < 0 then '-' :: ds else ds := by
  refine ⟨Nat.toDigits 10 k.natAbs, natural?_toDigits _, ?_⟩
  rw [Int.toString_eq_repr, Int.repr_eq_if]
  by_cases hneg : k < 0
  · rw [if_neg (by omega), if_pos hneg, show (-k).toNat = k.natAbs by omega, String.toList_append,
      Nat.toList_repr]
    rfl
  · rw [if_pos (by omega), if_neg hneg, show k.toNat = k.natAbs by omega, Nat.toList_repr]

/-- An integer of 32 bits is read as it is written. -/
theorem read32_toString (hlow : -2147483648 ≤ k) (hhigh : k ≤ 2147483647) :
    read32 10 (toString k).toList = some k := by
  have hwithin : within? (-2147483648) 2147483647 k = some k :=
    within?_eq_some_iff.2 ⟨rfl, hlow, hhigh⟩
  obtain ⟨ds, hds, htext⟩ := exists_toList_toString k
  rw [htext]
  split
  · next hneg =>
    rw [read32, integer?, hds, Option.bind_some, show -(k.natAbs : Int) = k by omega, hwithin]
  · next hpos =>
    rw [read32, integer?_of_natural? hds, show (k.natAbs : Int) = k by omega, hwithin]

end Number

namespace Binary32

variable {negative : Bool} {ds : List Char} {n : Nat}

theorem ofDecimal_zero (hn : n ≤ 2147483648) :
    ofDecimal negative n 0 = ofRatio negative n 1 := by
  have hlength : (Nat.toDigits 10 n).length ≤ 40 :=
    (Nat.length_toDigits_le_iff (by decide) (by decide)).2 (by omega)
  unfold ofDecimal
  dsimp only
  split
  · next hzero =>
    obtain rfl : n = 0 := hzero.resolve_right (by omega)
    rfl
  · rw [if_neg (by omega)]
    simp [power]

/-- The digits of a decimal integer, where any decimal may stand. -/
theorem ofUnsigned?_natural (h : Number.natural? 10 ds = some n) (hn : n ≤ 2147483648) :
    ofUnsigned? negative ds = some (ofRatio negative n 1) := by
  obtain ⟨hne, hdigits, hvalue⟩ := Number.natural?_eq_some_iff.1 h
  have htake : ds.takeWhile Char.isDigit = ds := List.takeWhile_eq_self_iff.2 hdigits
  have hdrop : ds.dropWhile Char.isDigit = [] := List.dropWhile_eq_nil_iff.2 hdigits
  have hread : Number.digits? 10 ds 0 = some n := Number.digits?_eq_some_iff.2 ⟨hdigits, hvalue⟩
  unfold ofUnsigned?
  simp [htake, hdrop, hne, hread, exponent?, ofDecimal_zero hn]

end Binary32

namespace Number.Numeral

/-- The single precision number that a decimal integer is read as. It has a sign also if it is
zero. -/
def single (w : Numeral) : Binary32 := .ofRatio (w.text.head? == some '-') w.value.natAbs 1

/-- A decimal integer where any decimal may stand is the number nearest to it. -/
theorem ofText?_text (w : Numeral) : Binary32.ofText? w.text = some w.single := by
  obtain ⟨sign, hsign, ds, n, htext, hn, hvalue, hlow, hhigh⟩ := exists_of_read32 w.reads
  have habs : w.value.natAbs = n := by
    split at hvalue <;> omega
  have hle : n ≤ 2147483648 := by omega
  unfold single
  rw [htext, habs]
  simp only [signs, List.mem_cons, List.not_mem_nil, or_false] at hsign
  rcases hsign with rfl | rfl | rfl
  · obtain ⟨hminus, hplus⟩ := head_of_natural? hn
    rw [List.nil_append, beq_false_of_ne hminus, Binary32.ofText?]
    · exact Binary32.ofUnsigned?_natural hn hle
    · exact fun _ h => hminus (h ▸ rfl)
    · exact fun _ h => hplus (h ▸ rfl)
  · exact Binary32.ofUnsigned?_natural hn hle
  · exact Binary32.ofUnsigned?_natural hn hle

end Number.Numeral
end ShaderLang
