import BlockScript.Proofs.Number.RoundTrip

/-!
# Numerals that are too large for a double

A numeral stands for the double nearest to its value. Past the largest finite double this is
infinity, and no value is too small: it only becomes zero.

## Main results

`nearest_lt_infinity_iff`: a fraction is rounded to a finite double if and only if it is below
`Binary.overflow`.
`isFinite_ofNumeral_iff`: a numeral stands for a finite number if and only if its value is below
that bound.

## Proof strategy

A fraction is written in units of `2 ^ (-1074)`, and `shift` of its low bits are rounded away.
Only the shift of the largest finite doubles needs a closer look: there the result is finite if
the significand is not rounded up to the next power of two. With a smaller shift it always is,
and with a larger one it never is.
-/

namespace BlockScript

namespace Binary

/-- The least number that is too large for a finite double. It lies half way between the largest
of these and the next power of two, which is the even one of the two. -/
def overflow : Nat := (twoTo 54 - 1) * twoTo 970

/-! ### Rounding below an even number -/

/-- A fraction is rounded to less than an even number if it is less than half a unit below it:
the half itself goes to the even one. -/
theorem roundHalfEven_lt_iff {den : Nat} (positive : 0 < den) (m num : Nat) :
    roundHalfEven num den < 2 * m + 2 ↔ 2 * num < (4 * m + 3) * den := by
  have parts : den * (num / den) + num % den = num := Nat.div_add_mod num den
  have left : num % den < den := Nat.mod_lt num positive
  have bound : (4 * m + 3) * den = 4 * (den * m) + 3 * den := by ring
  rw [bound]
  -- Only if the whole part is the last odd number below the bound does the rest matter.
  rcases Nat.lt_trichotomy (num / den) (2 * m + 1) with below | last | above
  · have whole : den * (num / den) ≤ den * (2 * m) := Nat.mul_le_mul_left den (by omega)
    have twice : den * (2 * m) = 2 * (den * m) := by ring
    have := roundHalfEven_eq_or num den
    constructor <;> intro <;> omega
  · have twice : den * (2 * m + 1) = 2 * (den * m) + den := by ring
    rw [last, twice] at parts
    unfold roundHalfEven
    rw [last]
    split
    · constructor <;> intro <;> omega
    · split <;> constructor <;> intro <;> omega
  · have whole : den * (2 * m + 2) ≤ den * (num / den) := Nat.mul_le_mul_left den above
    have twice : den * (2 * m + 2) = 2 * (den * m) + 2 * den := by ring
    have := roundHalfEven_eq_or num den
    constructor <;> intro <;> omega

/-! ### The largest finite doubles -/

/-- When the low bits have been dropped, the significand has at most fifty-three bits. -/
private theorem div_lt_of_log2 (scaled den : Nat) :
    scaled / (den * twoTo ((scaled / den).log2 - 52)) < 2 * leadingBit := by
  have bits : scaled / den < 2 ^ ((scaled / den).log2 + 1) := Nat.lt_log2_self
  have more : 2 ^ ((scaled / den).log2 + 1) ≤ 2 ^ (53 + ((scaled / den).log2 - 52)) :=
    Nat.pow_le_pow_right (by decide) (by omega)
  rw [← Nat.div_div_eq_div_mul]
  apply Nat.div_lt_of_lt_mul
  calc scaled / den
      < 2 ^ (53 + ((scaled / den).log2 - 52)) := Nat.lt_of_lt_of_le bits more
    _ = twoTo ((scaled / den).log2 - 52) * (2 * leadingBit) := by
        rw [Nat.pow_add, Nat.mul_comm]
        rfl

/-- If there were any to drop, it has exactly fifty-three. -/
private theorem le_div_of_log2 (scaled den : Nat) (drops : 0 < (scaled / den).log2 - 52) :
    leadingBit ≤ scaled / (den * twoTo ((scaled / den).log2 - 52)) := by
  have filled : scaled / den ≠ 0 := by
    intro zero
    simp [zero] at drops
  have bits : 2 ^ (scaled / den).log2 ≤ scaled / den := Nat.log2_self_le filled
  have whole : 52 + ((scaled / den).log2 - 52) = (scaled / den).log2 := by omega
  rw [← Nat.div_div_eq_div_mul, Nat.le_div_iff_mul_le (twoTo_pos _)]
  calc leadingBit * twoTo ((scaled / den).log2 - 52)
      = 2 ^ (52 + ((scaled / den).log2 - 52)) := by
        rw [Nat.pow_add]
        rfl
    _ = 2 ^ (scaled / den).log2 := by rw [whole]
    _ ≤ scaled / den := bits

/-- The bound, in the units in which the largest finite doubles are whole. -/
private theorem lt_overflow_iff (num den : Nat) :
    num < overflow * den ↔
      2 * (num * twoTo 1074) < (4 * leadingBit - 1) * (den * twoTo 2045) := by
  have fine : 2 * (num * twoTo 1074) = twoTo 1075 * num := by
    rw [show (1075 : Nat) = 1074 + 1 from rfl, twoTo_add, show twoTo 1 = 2 from rfl]
    ring
  have coarse : (4 * leadingBit - 1) * (den * twoTo 2045) = twoTo 1075 * (overflow * den) := by
    rw [show (2045 : Nat) = 1075 + 970 from rfl, twoTo_add, overflow,
      show twoTo 54 - 1 = 4 * leadingBit - 1 from rfl]
    ring
  rw [fine, coarse, Nat.mul_lt_mul_left (twoTo_pos 1075)]

/-- A larger shift drops at least one bit more. -/
private theorem two_mul_mul_twoTo_le {shift other : Nat} (larger : shift < other) (den : Nat) :
    2 * (den * twoTo shift) ≤ den * twoTo other := by
  have grows : twoTo (shift + 1) ≤ twoTo other := Nat.pow_le_pow_right (by decide) larger
  calc 2 * (den * twoTo shift)
      = den * twoTo (shift + 1) := by
        rw [twoTo_add, show twoTo 1 = 2 from rfl]
        ring
    _ ≤ den * twoTo other := Nat.mul_le_mul_left den grows

/-- A fraction is rounded to a finite double if and only if it is below the bound. -/
theorem nearest_lt_infinity_iff {num den : Nat} (positive : 0 < den) :
    nearest num den < infinity ↔ num < overflow * den := by
  have top : infinity = 2047 * 4503599627370496 := rfl
  have unit : leadingBit = 4503599627370496 := rfl
  rw [lt_overflow_iff]
  unfold nearest
  dsimp only
  generalize infinity = largest, num * twoTo 1074 = scaled at top ⊢
  have upper := div_lt_of_log2 scaled den
  have lower := le_div_of_log2 scaled den
  generalize (scaled / den).log2 - 52 = shift at upper lower ⊢
  have filled : 0 < den * twoTo shift := Nat.mul_pos positive (twoTo_pos shift)
  have rounded := roundHalfEven_eq_or scaled (den * twoTo shift)
  rw [unit] at upper lower ⊢
  rcases Nat.lt_trichotomy shift 2045 with small | last | large
  -- The carry of the significand stays below the highest exponent.
  · have finer := two_mul_mul_twoTo_le small den
    have below := (Nat.div_lt_iff_lt_mul filled).mp upper
    generalize den * twoTo 2045 = bound at finer ⊢
    constructor <;> intro <;> omega
  -- Here it is the carry that decides.
  · have even := roundHalfEven_lt_iff filled 4503599627370495 scaled
    rw [last] at even ⊢
    omega
  -- Without any carry the exponent is the highest one.
  · have coarser := two_mul_mul_twoTo_le large den
    have above := (Nat.le_div_iff_mul_le filled).mp (lower (Nat.lt_of_le_of_lt (by decide) large))
    generalize den * twoTo 2045 = bound at coarser ⊢
    constructor <;> intro <;> omega

end Binary

/-- A numeral stands for a finite number if and only if its value is below the bound. -/
theorem Number.isFinite_ofNumeral_iff (whole fraction : List Char) :
    (ofNumeral whole fraction).isFinite = true ↔
      Nat.ofDigitChars 10 (whole ++ fraction) 0 < Binary.overflow * 10 ^ fraction.length := by
  rw [isFinite_ofNumeral, decide_eq_true_eq]
  exact Binary.nearest_lt_infinity_iff (Decimal.tenTo_pos fraction.length)

end BlockScript
