/-!
# Doubles as bit patterns

A double without its sign is a pattern below `2 ^ 63`: eleven exponent bits over
fifty-two fraction bits. Ordered as natural numbers, the patterns are ordered by
value, so the next pattern is the next double. Every finite value is a whole
number of units of `2 ^ (-1074)`; `magnitude` counts them. `nearest` goes the
other way: it takes a fraction to the pattern of the double nearest to it, a tie
going to the even pattern, and to infinity past the largest finite one.
-/
namespace BlockScript.Binary

def twoTo (n : Nat) : Nat := Nat.pow 2 n

/-- The number of patterns that share an exponent; as a bit of the significand, the one
in front of the fraction bits. -/
def leadingBit : Nat := twoTo 52

/-- The pattern of infinity: every exponent bit set, no fraction bit. -/
def infinity : Nat := 2047 * leadingBit

/-- The pattern of the usual NaN: past infinity, with the highest fraction bit. -/
def notANumber : Nat := infinity + twoTo 51

def signBit : Nat := twoTo 63

def exponent (bits : Nat) : Nat := bits / leadingBit

/-- The significand of a finite pattern. The lowest exponent has no leading bit. -/
def significand (bits : Nat) : Nat :=
  if exponent bits = 0 then bits else leadingBit + bits % leadingBit

/-- The value of a finite pattern in units of `2 ^ (-1074)`. Exponents zero and
one share the smallest unit; from there on every step doubles it. -/
def magnitude (bits : Nat) : Nat :=
  significand bits * twoTo (exponent bits - 1)

/-- The natural number nearest to `num / den`, a half going to the even one. -/
def roundHalfEven (num den : Nat) : Nat :=
  if 2 * (num % den) < den then num / den
  else if den < 2 * (num % den) then num / den + 1
  else num / den + num / den % 2

/-- The pattern of the double nearest to `num / den`.

The fraction is first written in units of `2 ^ (-1074)`. When it needs more than
fifty-three bits, `shift` low bits are rounded away. Adding the rounded
significand to the shifted exponent also covers a significand that rounds up to
the next power of two: the carry runs into the exponent, where it belongs. -/
def nearest (num den : Nat) : Nat :=
  let scaled := num * twoTo 1074
  -- Natural subtraction leaves the shift at zero where the smallest unit is fine enough.
  let shift := (scaled / den).log2 - 52
  min infinity (shift * leadingBit + roundHalfEven scaled (den * twoTo shift))

/-! ### Rounding -/

/-- A whole number is its own rounding. -/
theorem roundHalfEven_mul (n den : Nat) (positive : 0 < den) :
    roundHalfEven (n * den) den = n := by
  simp [roundHalfEven, Nat.mul_mod_left, Nat.mul_div_cancel n positive, positive]

/-- The rounding is one of the two neighbours of the fraction. -/
theorem roundHalfEven_eq_or (num den : Nat) :
    roundHalfEven num den = num / den ∨ roundHalfEven num den = num / den + 1 := by
  unfold roundHalfEven
  split
  · exact .inl rfl
  · split
    · exact .inr rfl
    · rcases Nat.mod_two_eq_zero_or_one (num / den) with even | odd
      · exact .inl (by omega)
      · exact .inr (by omega)

/-- No double lies past infinity. -/
theorem nearest_le (num den : Nat) : nearest num den ≤ infinity :=
  Nat.min_le_left _ _

end BlockScript.Binary
