import Mathlib.Algebra.Order.Ring.Nat
import ShaderLang.Number.Binary32
/-!
# Integers in single precision

The single precision number nearest to an integer has 24 significant bits. So the integer is rounded
to a multiple of a power of two, which grows with its magnitude, and truncating the number gives the
rounded integer back, cut to 32 bits.

## Main definitions

* `Binary32.unit`, `Binary32.rounded` — the place that is rounded to, and the rounded magnitude
* `Binary32.Exact` — an integer that comes back as it was

## Main results

* `Binary32.toNat_bits_ofRatio` — the bits of the number nearest to an integer
* `Binary32.toInt32_ofRatio` — truncating the number nearest to an integer
* `Binary32.toInt32_ofRatio_eq_iff` — the integers that come back
-/

namespace ShaderLang

/-! ## Rounded quotients -/

variable {n d : Nat}

theorem div_le_roundQuotient (n d : Nat) : n / d ≤ roundQuotient n d := by
  unfold roundQuotient
  dsimp only
  split
  · exact Nat.le_refl _
  · split <;> omega

theorem roundQuotient_le (n d : Nat) : roundQuotient n d ≤ n / d + 1 := by
  unfold roundQuotient
  dsimp only
  split
  · exact Nat.le_succ _
  · split
    · exact Nat.le_refl _
    · have := Nat.mod_lt (n / d) (by decide : 0 < 2)
      omega

/-- Only multiples are quotients without a rest. -/
theorem roundQuotient_mul_eq_iff (hd : 0 < d) : roundQuotient n d * d = n ↔ d ∣ n := by
  constructor
  · exact fun h => ⟨_, (Nat.mul_comm _ _ ▸ h).symm⟩
  · rintro ⟨q, rfl⟩
    rw [roundQuotient, Nat.mul_mod_right, Nat.mul_zero, if_pos hd, Nat.mul_div_cancel_left q hd,
      Nat.mul_comm]

namespace Binary32

/-- The place that a natural number is rounded to. -/
def unit (m : Nat) : Nat := 2 ^ (m.log2 - 23)

/-- A natural number rounded to 24 significant bits. -/
def rounded (m : Nat) : Nat := roundQuotient m (unit m) * unit m

/-- A magnitude with a sign, cut to the 32-bit integers. -/
def clamped (negative : Bool) (m : Nat) : Int :=
  if negative then max (-(m : Int)) (-2147483648) else min (m : Int) 2147483647

variable {negative : Bool} {m e f : Nat}

theorem unit_pos (m : Nat) : 0 < unit m := Nat.two_pow_pos _

/-! ## The fields of a number -/

theorem toNat_bits_ofMagnitude (hm : m < signBit) :
    (ofMagnitude negative m).bits.toNat = if negative then m + signBit else m := by
  unfold ofMagnitude signBit at *
  cases negative <;> simp [UInt32.toNat_ofNat'] <;> omega

/-- The fields of a number that is finite. -/
theorem fields_ofMagnitude (he : e < 255) (hf : f < fractionCount) :
    (ofMagnitude negative (e * fractionCount + f)).exponentField = e ∧
      (ofMagnitude negative (e * fractionCount + f)).fraction = f ∧
      (ofMagnitude negative (e * fractionCount + f)).negative = negative := by
  have hm : e * fractionCount + f < signBit := by
    unfold fractionCount signBit at *
    omega
  unfold exponentField fraction Binary32.negative
  rw [toNat_bits_ofMagnitude hm]
  unfold fractionCount signBit at *
  cases negative <;> simp <;> omega

/-- Truncating a number that is finite. -/
theorem toInt32_ofMagnitude (hpos : 0 < e) (he : e < 255) (hf : f < fractionCount) :
    (ofMagnitude negative (e * fractionCount + f)).toInt32 =
      clamped negative ((f + fractionCount) * 2 ^ (e - 150) / 2 ^ (150 - e)) := by
  obtain ⟨hexponent, hfraction, hnegative⟩ := @fields_ofMagnitude negative _ _ he hf
  generalize ofMagnitude negative (e * fractionCount + f) = x at *
  have hscale : x.scale = (e : Int) - 150 := by
    unfold scale
    rw [hexponent]
    omega
  have hup : ((e : Int) - 150).toNat = e - 150 := by omega
  have hdown : (-((e : Int) - 150)).toNat = 150 - e := by omega
  unfold toInt32 isNaN isInfinite significand
  rw [hscale, hexponent, hfraction, hnegative, power, power, hup, hdown]
  have hfinite : (e == 255) = false := by simp; omega
  simp only [hfinite, Bool.false_and, Bool.false_eq_true, if_false, Nat.ne_of_gt hpos]
  rfl

/-! ## Rounding to 24 bits -/

theorem floorLog2_one (hm : 0 < m) : floorLog2 m 1 = m.log2 := by
  have hone : Nat.log2 1 = 0 := by decide
  have hle : power 2 (m.log2 : Int) ≤ m := by
    rw [power, Int.toNat_natCast]
    exact Nat.log2_self_le hm.ne'
  have hdown : power 2 (-(m.log2 : Int)) = 1 := by
    rw [power, Int.toNat_of_nonpos (by omega), Nat.pow_eq, Nat.pow_zero]
  rw [floorLog2, hone, Int.natCast_zero, Int.sub_zero, hdown, Nat.one_mul, Nat.mul_one, if_pos hle]

/-- How many units a natural number is rounded to; where it has less than 24 bits, these are
fractions. -/
def units (m : Nat) : Nat := roundQuotient (m * 2 ^ (23 - m.log2)) (unit m)

theorem roundQuotient_one (n : Nat) : roundQuotient n 1 = n := by
  have h := (roundQuotient_mul_eq_iff (n := n) Nat.one_pos).2 (Nat.one_dvd n)
  rwa [Nat.mul_one] at h

theorem units_of_le (hlog : m.log2 ≤ 23) : units m = m * 2 ^ (23 - m.log2) := by
  have hunit : unit m = 1 := by
    rw [unit, Nat.sub_eq_zero_of_le hlog, Nat.pow_zero]
  rw [units, hunit, roundQuotient_one]

theorem units_of_ge (hlog : 23 ≤ m.log2) : units m = roundQuotient m (unit m) := by
  rw [units, Nat.sub_eq_zero_of_le hlog, Nat.pow_zero, Nat.mul_one]

/-- The first of the 24 bits is set, unless rounding carries over. -/
theorem units_bounds (hm : 0 < m) : fractionCount ≤ units m ∧ units m ≤ 2 * fractionCount := by
  have hcount : fractionCount = 2 ^ 23 := rfl
  have hlow : 2 ^ m.log2 ≤ m := Nat.log2_self_le hm.ne'
  have hhigh : m < 2 ^ (m.log2 + 1) := Nat.lt_log2_self
  -- A small number is scaled up exactly, a large one is rounded.
  rcases Nat.le_total m.log2 23 with hlog | hlog
  · have hpow : 2 ^ m.log2 * 2 ^ (23 - m.log2) = fractionCount := by
      rw [← Nat.pow_add, Nat.add_sub_cancel' hlog, hcount]
    rw [units_of_le hlog, ← hpow]
    refine ⟨Nat.mul_le_mul_right _ hlow, ?_⟩
    rw [← Nat.mul_assoc, ← Nat.pow_succ']
    exact Nat.mul_le_mul_right _ hhigh.le
  · have hpow : fractionCount * unit m = 2 ^ m.log2 := by
      rw [hcount, unit, ← Nat.pow_add, Nat.add_sub_cancel' hlog]
    have hdouble : 2 * fractionCount * unit m = 2 ^ (m.log2 + 1) := by
      rw [Nat.mul_assoc, hpow, Nat.pow_succ']
    rw [units_of_ge hlog]
    constructor
    · refine Nat.le_trans ?_ (div_le_roundQuotient m (unit m))
      rw [Nat.le_div_iff_mul_le (unit_pos m), hpow]
      exact hlow
    · refine (roundQuotient_le m (unit m)).trans (Nat.succ_le_of_lt ?_)
      rw [Nat.div_lt_iff_lt_mul (unit_pos m), hdouble]
      exact hhigh

theorem units_mul_unit (m : Nat) : units m * unit m / 2 ^ (23 - m.log2) = rounded m := by
  rcases Nat.le_total m.log2 23 with hlog | hlog
  · have hunit : unit m = 1 := by
      rw [unit, Nat.sub_eq_zero_of_le hlog, Nat.pow_zero]
    rw [units_of_le hlog, rounded, hunit, Nat.mul_one, Nat.mul_one, roundQuotient_one,
      Nat.mul_div_cancel _ (Nat.two_pow_pos _)]
  · rw [units_of_ge hlog, Nat.sub_eq_zero_of_le hlog, Nat.pow_zero, Nat.div_one, rounded]

/-- The bits of the number nearest to a natural number. -/
theorem magnitude_one (hm : 0 < m) (hlog : m.log2 ≤ 31) :
    magnitude m 1 = (m.log2 + 126) * fractionCount + units m := by
  have hunits := (units_bounds hm).2
  have hexponent : max (floorLog2 m 1 - 23) (-149) = (m.log2 : Int) - 23 := by
    rw [floorLog2_one hm]
    omega
  have hup : ((m.log2 : Int) - 23).toNat = m.log2 - 23 := by omega
  have hdown : (-((m.log2 : Int) - 23)).toNat = 23 - m.log2 := by omega
  have hfield : ((m.log2 : Int) - 23 + 149).toNat = m.log2 + 126 := by omega
  unfold magnitude
  dsimp only
  rw [if_neg hm.ne', hexponent, hfield, power, power, hup, hdown, Nat.one_mul]
  change min ((m.log2 + 126) * fractionCount + units m) infinityBits = _
  refine Nat.min_eq_left ?_
  unfold fractionCount infinityBits at *
  omega

/-- The bits of the number nearest to an integer lie above those of all numbers below one. -/
theorem toNat_bits_ofRatio (negative : Bool) (hm : 0 < m) (hlog : m.log2 ≤ 31) :
    (ofRatio negative m 1).bits.toNat =
      (m.log2 + 126) * fractionCount + units m + if negative then signBit else 0 := by
  have hunits := (units_bounds hm).2
  rw [ofRatio, magnitude_one hm hlog, toNat_bits_ofMagnitude]
  · cases negative <;> simp
  · unfold fractionCount signBit at *
    omega

/-- When rounding carries over, half as many units of the next place are left. -/
theorem half_units_mul (heq : units m = 2 * fractionCount) :
    fractionCount * 2 ^ (m.log2 - 22) / 2 ^ (22 - m.log2) = rounded m := by
  rw [← units_mul_unit, heq, unit]
  rcases Nat.lt_or_ge m.log2 23 with hlog | hlog
  · have hdown : 23 - m.log2 = 22 - m.log2 + 1 := by omega
    rw [hdown, Nat.sub_eq_zero_of_le (by omega : m.log2 ≤ 22), Nat.sub_eq_zero_of_le hlog.le,
      Nat.pow_zero, Nat.mul_one, Nat.mul_one, Nat.pow_succ', Nat.mul_div_mul_left _ _ Nat.two_pos]
  · have hup : m.log2 - 22 = m.log2 - 23 + 1 := by omega
    rw [hup, Nat.sub_eq_zero_of_le hlog, Nat.sub_eq_zero_of_le (by omega : 22 ≤ m.log2),
      Nat.pow_succ', Nat.mul_left_comm, Nat.mul_assoc]

/-- Truncating the number nearest to an integer gives the integer rounded to 24 bits. -/
theorem toInt32_ofRatio (negative : Bool) (hlog : m.log2 ≤ 31) :
    (ofRatio negative m 1).toInt32 = clamped negative (rounded m) := by
  rcases Nat.eq_zero_or_pos m with rfl | hm
  · cases negative <;> decide +kernel
  · obtain ⟨hlow, hhigh⟩ := units_bounds hm
    rw [ofRatio, magnitude_one hm hlog]
    -- Rounding up to a power of two adds one to the exponent.
    rcases Nat.lt_or_eq_of_le hhigh with hlt | heq
    · obtain ⟨f, hf⟩ := Nat.exists_eq_add_of_le' hlow
      have hfields : (m.log2 + 126) * fractionCount + units m =
          (m.log2 + 127) * fractionCount + f := by
        unfold fractionCount at *
        omega
      have hup : m.log2 + 127 - 150 = m.log2 - 23 := by omega
      have hdown : 150 - (m.log2 + 127) = 23 - m.log2 := by omega
      rw [hfields, toInt32_ofMagnitude (by omega) (by omega) (by omega), ← hf, hup, hdown,
        ← units_mul_unit, unit]
    · have hfields : (m.log2 + 126) * fractionCount + units m =
          (m.log2 + 128) * fractionCount + 0 := by
        rw [heq]
        unfold fractionCount
        omega
      have hup : m.log2 + 128 - 150 = m.log2 - 22 := by omega
      have hdown : 150 - (m.log2 + 128) = 22 - m.log2 := by omega
      rw [hfields, toInt32_ofMagnitude (by omega) (by omega) (by decide), Nat.zero_add, hup, hdown,
        half_units_mul heq]

/-! ## Integers that come back -/

theorem roundQuotient_le_of_le {k : Nat} (hd : 0 < d) (h : n ≤ k * d) : roundQuotient n d ≤ k := by
  rcases Nat.lt_or_eq_of_le h with hlt | rfl
  · have hdiv : n / d < k := (Nat.div_lt_iff_lt_mul hd).2 hlt
    exact (roundQuotient_le n d).trans hdiv
  · have hexact := (roundQuotient_mul_eq_iff (n := k * d) hd).2 (Nat.dvd_mul_left d k)
    exact (Nat.eq_of_mul_eq_mul_right hd hexact).le

theorem log2_le (hm : m ≤ 2147483648) : m.log2 ≤ 31 := by
  rcases Nat.eq_zero_or_pos m with rfl | hpos
  · decide
  · exact Nat.le_of_lt_succ ((Nat.log2_lt hpos.ne').2 (by omega))

/-- Rounding does not lead beyond the greatest magnitude. -/
theorem rounded_le (hm : m ≤ 2147483648) : rounded m ≤ 2147483648 := by
  have hpow : 2 ^ (31 - (m.log2 - 23)) * unit m = 2147483648 := by
    have hlog := log2_le hm
    rw [unit, ← Nat.pow_add, Nat.sub_add_cancel (by omega)]
  have hle : roundQuotient m (unit m) ≤ 2 ^ (31 - (m.log2 - 23)) :=
    roundQuotient_le_of_le (unit_pos m) (hpow ▸ hm)
  exact hpow ▸ Nat.mul_le_mul_right (unit m) hle

/-- The integer has no more than 24 significant bits, or it is the greatest one of 32 bits, to which
what it is rounded to is cut. -/
def Exact (n : Int) : Prop := unit n.natAbs ∣ n.natAbs ∨ n = 2147483647

instance : DecidablePred Exact := fun _ => inferInstanceAs (Decidable (_ ∨ _))

/-- An integer of 32 bits comes back from the number nearest to it just if it is exact. -/
theorem toInt32_ofRatio_eq_iff {k : Int} (hlow : -2147483648 ≤ k) (hhigh : k ≤ 2147483647)
    (hsign : if negative then k ≤ 0 else 0 ≤ k) :
    (ofRatio negative k.natAbs 1).toInt32 = k ↔ Exact k := by
  have hle : k.natAbs ≤ 2147483648 := by omega
  have hrounded := rounded_le hle
  rw [toInt32_ofRatio negative (log2_le hle), Exact, ← roundQuotient_mul_eq_iff (unit_pos _)]
  change _ ↔ rounded k.natAbs = k.natAbs ∨ k = 2147483647
  cases negative with
  | true =>
    simp only [if_true] at hsign
    rw [clamped, if_pos rfl, max_eq_left (by omega)]
    omega
  | false =>
    simp only [Bool.false_eq_true, if_false] at hsign
    rw [clamped, if_neg Bool.false_ne_true]
    by_cases hmax : k = 2147483647
    · -- The greatest integer is rounded up, and cut to what it was.
      subst hmax
      decide +kernel
    · rcases Nat.lt_or_ge (rounded k.natAbs) 2147483648 with hlt | hge
      · rw [min_eq_left (by omega)]
        omega
      · rw [min_eq_right (by omega)]
        omega

end Binary32
end ShaderLang
