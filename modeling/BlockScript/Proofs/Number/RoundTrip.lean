import BlockScript.Proofs.Number.Pattern
import BlockScript.Source.Character

/-!
# Numbers that are written and read again

The text of a number is a numeral of the language unless the number is infinite, and the
numeral stands for the same number.

## Main results

`bits_shortest`: the decimal chosen for a finite pattern reads back as the pattern.
`exists_numeral_text`: the text of a finite number is a numeral for that number.

## Proof strategy

The pattern nearest to a fraction depends on the value of the fraction only, not on how it
is written. So dropping zeros at the end is harmless, and it is enough that a pattern is
nearest to its own exact value.
-/

namespace BlockScript

/-! ### The nearest pattern depends on the value alone -/

namespace Binary

theorem roundHalfEven_mul_mul {k : Nat} (positive : 0 < k) (num den : Nat) :
    roundHalfEven (k * num) (k * den) = roundHalfEven num den := by
  have double : 2 * (k * (num % den)) = k * (2 * (num % den)) := by ring
  simp only [roundHalfEven, Nat.mul_mod_mul_left, Nat.mul_div_mul_left num den positive, double,
    Nat.mul_lt_mul_left positive]

theorem nearest_mul_mul {k : Nat} (positive : 0 < k) (num den : Nat) :
    nearest (k * num) (k * den) = nearest num den := by
  simp only [nearest, Nat.mul_assoc, Nat.mul_div_mul_left _ den positive,
    roundHalfEven_mul_mul positive]

end Binary

namespace Decimal

theorem tenTo_pos (n : Nat) : 0 < tenTo n :=
  Nat.pow_pos (by decide)

/-- Two ways to write one fraction have the same nearest pattern. -/
theorem bits_eq_of_value_eq {d e : Decimal}
    (equal : d.digits * tenTo e.scale = e.digits * tenTo d.scale) : d.bits = e.bits := by
  calc d.bits
      = Binary.nearest (tenTo e.scale * d.digits) (tenTo e.scale * tenTo d.scale) :=
        (Binary.nearest_mul_mul (tenTo_pos e.scale) _ _).symm
    _ = Binary.nearest (tenTo d.scale * e.digits) (tenTo d.scale * tenTo e.scale) := by
        rw [Nat.mul_comm (tenTo e.scale) d.digits, equal, Nat.mul_comm e.digits,
          Nat.mul_comm (tenTo e.scale)]
    _ = e.bits := Binary.nearest_mul_mul (tenTo_pos d.scale) _ _

theorem bits_strip (digits scale : Nat) :
    (strip digits scale).bits = (⟨digits, scale⟩ : Decimal).bits :=
  bits_eq_of_value_eq (strip_digits digits scale)

end Decimal

/-! ### A pattern is nearest to its own value -/

namespace Binary

theorem leadingBit_eq : leadingBit = 2 ^ 52 := rfl

theorem twoTo_pos (n : Nat) : 0 < twoTo n :=
  Nat.pow_pos (by decide)

theorem twoTo_add (m n : Nat) : twoTo (m + n) = twoTo m * twoTo n :=
  Nat.pow_add 2 m n

/-- A pattern in terms of its significand and its exponent. -/
theorem bits_eq_significand (bits : Nat) :
    bits = (exponent bits - 1) * leadingBit + significand bits := by
  have parts : leadingBit * (bits / leadingBit) + bits % leadingBit = bits :=
    Nat.div_add_mod bits leadingBit
  unfold significand
  split
  next lowest => rw [lowest]; omega
  next normal =>
    have positive : 1 ≤ exponent bits := Nat.one_le_iff_ne_zero.mpr normal
    have step : (exponent bits - 1) * leadingBit + leadingBit = leadingBit * exponent bits := by
      rw [← Nat.succ_mul, Nat.succ_eq_add_one, Nat.sub_add_cancel positive, Nat.mul_comm]
    have whole : leadingBit * exponent bits + bits % leadingBit = bits := parts
    omega

/-- The value of a finite pattern has as many bits to drop as its exponent says. -/
theorem log2_magnitude (bits : Nat) : (magnitude bits).log2 - 52 = exponent bits - 1 := by
  unfold magnitude significand
  split
  next lowest =>
    -- The patterns below the normal ones have no bit to drop.
    have small : bits < 2 ^ 52 := by
      have below := Nat.lt_of_div_eq_zero (by decide) lowest
      exact below
    have none : exponent bits - 1 = 0 := by omega
    rw [none]
    change (bits * 1).log2 - 52 = 0
    rw [Nat.mul_one]
    rcases Nat.eq_zero_or_pos bits with rfl | positive
    · rfl
    · have := (Nat.log2_lt positive.ne').mpr small
      omega
  next =>
    -- The significand of a normal pattern has 53 bits, and the value shifts them.
    have fraction : bits % leadingBit < 2 ^ 52 := Nat.mod_lt _ (by decide)
    have exact : ((leadingBit + bits % leadingBit) * 2 ^ (exponent bits - 1)).log2 =
        52 + (exponent bits - 1) := by
      rw [Nat.log2_eq_iff (Nat.mul_pos (by rw [leadingBit_eq]; omega) (Nat.two_pow_pos _)).ne']
      constructor
      · rw [Nat.pow_add]
        exact Nat.mul_le_mul_right _ (by rw [leadingBit_eq]; omega)
      · rw [show 52 + (exponent bits - 1) + 1 = 53 + (exponent bits - 1) by omega, Nat.pow_add]
        exact Nat.mul_lt_mul_of_pos_right (by rw [leadingBit_eq]; omega) (Nat.two_pow_pos _)
    change ((leadingBit + bits % leadingBit) * 2 ^ (exponent bits - 1)).log2 - 52 = _
    omega

/-- Any fraction whose value is that of a finite pattern has this pattern as its nearest. -/
theorem nearest_of_value {bits num den : Nat} (finite : bits < infinity) (positive : 0 < den)
    (value : num * twoTo 1074 = magnitude bits * den) : nearest num den = bits := by
  have scaled : magnitude bits * den =
      significand bits * (den * twoTo (exponent bits - 1)) := by
    unfold magnitude
    ring
  simp only [nearest, value, Nat.mul_div_cancel _ positive, log2_magnitude]
  rw [scaled, roundHalfEven_mul _ _ (Nat.mul_pos positive (twoTo_pos _)),
    ← bits_eq_significand]
  exact Nat.min_eq_right finite.le

end Binary

namespace Decimal

/-- The exact value of a finite pattern reads back as the pattern. -/
theorem bits_exact {bits : Nat} (finite : bits < Binary.infinity) : (exact bits).bits = bits := by
  apply Binary.nearest_of_value finite (tenTo_pos _)
  unfold exact
  dsimp only
  split
  next large =>
    have shift : Binary.exponent bits - 1 = Binary.exponent bits - 1075 + 1074 := by omega
    change _ = Binary.magnitude bits * 1
    rw [Nat.mul_one, Binary.magnitude, shift, Binary.twoTo_add, Nat.mul_assoc]
  next small =>
    -- The units of the pattern and those of the decimal differ by powers of five.
    have tens : tenTo (1075 - max (Binary.exponent bits) 1) =
        Binary.twoTo (1075 - max (Binary.exponent bits) 1) *
          Nat.pow 5 (1075 - max (Binary.exponent bits) 1) :=
      Nat.mul_pow 2 5 _
    have shift : 1074 = 1075 - max (Binary.exponent bits) 1 + (Binary.exponent bits - 1) := by
      omega
    rw [Binary.magnitude, tens, shift, Binary.twoTo_add]
    ring

/-- The decimal chosen for a finite pattern reads back as the pattern. -/
theorem bits_shortest {bits : Nat} (finite : bits < Binary.infinity) :
    (shortest bits).bits = bits := by
  unfold shortest
  dsimp only
  rw [bits_strip]
  cases found : ((List.range 17).map (· + 1)).findSome? (onGrid? bits (exact bits)
      (Nat.toDigits 10 (exact bits).digits).length) with
  -- Without a shorter decimal the exact one is taken.
  | none => exact bits_exact finite
  | some chosen =>
    obtain ⟨_, count, _, _, hit, _⟩ := List.findSome?_eq_some_iff.mp found
    exact bits_of_onGrid? hit

end Decimal

/-! ### Numerals -/

namespace Number

/-- The digits of a numeral: some before the point, and those after it if there are any. -/
structure IsNumeral (whole fraction : List Char) : Prop where
  filled : whole ≠ []
  digits : ∀ c ∈ whole ++ fraction, Character.isDigit c = true

/-- How a numeral is written. Without a fraction it has no point. -/
def numeral (whole fraction : List Char) : List Char :=
  if fraction = [] then whole else whole ++ '.' :: fraction

end Number

namespace Decimal

theorem isDigit_of_mem_toDigits {n : Nat} {c : Char} (member : c ∈ Nat.toDigits 10 n) :
    Character.isDigit c = true := by
  have digit := Nat.isDigit_of_mem_toDigits (by decide) (by decide) member
  simpa [Char.isDigit, Character.isDigit, Char.le_def] using digit

theorem isDigit_of_mem_padded {width n : Nat} {c : Char} (member : c ∈ padded width n) :
    Character.isDigit c = true := by
  rcases List.mem_append.mp member with zero | digit
  · rw [(List.mem_replicate.mp zero).2]
    rfl
  · exact isDigit_of_mem_toDigits digit

/-- Padding reaches the width and never passes it. -/
theorem length_padded {width n : Nat} (positive : 0 < width) (bound : n < tenTo width) :
    (padded width n).length = width := by
  have fits : (Nat.toDigits 10 n).length ≤ width :=
    (Nat.length_toDigits_le_iff (by decide) positive).mpr bound
  simp only [padded, List.length_append, List.length_replicate]
  omega

theorem ofDigitChars_padded (width n : Nat) : Nat.ofDigitChars 10 (padded width n) 0 = n := by
  rw [padded, Nat.ofDigitChars_append, Nat.ofDigitChars_replicate_zero, Nat.mul_zero,
    Nat.ofDigitChars_ten_toDigits]

/-- The positional form of a decimal is a numeral that stands for it. -/
theorem exists_numeral_chars (d : Decimal) :
    ∃ whole fraction, Number.IsNumeral whole fraction ∧
      d.chars = Number.numeral whole fraction ∧ ofNumeral whole fraction = d := by
  obtain ⟨digits, scale⟩ := d
  by_cases integral : scale = 0
  · subst integral
    refine ⟨Nat.toDigits 10 digits, [], ⟨Nat.toDigits_ne_nil, ?_⟩, rfl, ?_⟩
    · intro c member
      exact isDigit_of_mem_toDigits (by simpa using member)
    · simp [ofNumeral, Nat.ofDigitChars_ten_toDigits]
  -- The decimals are padded to the scale, so together with the whole part they give all
  -- digits back.
  · have positive : 0 < scale := Nat.pos_of_ne_zero integral
    have width := length_padded positive (Nat.mod_lt digits (tenTo_pos scale))
    have filled : padded scale (digits % tenTo scale) ≠ [] :=
      List.length_pos_iff.mp (by rw [width]; exact positive)
    refine ⟨Nat.toDigits 10 (digits / tenTo scale), padded scale (digits % tenTo scale),
      ⟨Nat.toDigits_ne_nil, ?_⟩, ?_, ?_⟩
    · intro c member
      rcases List.mem_append.mp member with before | after
      · exact isDigit_of_mem_toDigits before
      · exact isDigit_of_mem_padded after
    · simp [chars, Number.numeral, integral, filled]
    · have value : Nat.ofDigitChars 10 (Nat.toDigits 10 (digits / tenTo scale) ++
          padded scale (digits % tenTo scale)) 0 = digits := by
        rw [Nat.ofDigitChars_append, Nat.ofDigitChars_eq_ofDigitChars_zero,
          Nat.ofDigitChars_ten_toDigits, ofDigitChars_padded, width]
        exact Nat.div_add_mod digits (tenTo scale)
      rw [ofNumeral, value, width]

end Decimal

/-! ### The text of a number that a numeral stands for -/

namespace Number

variable {whole fraction : List Char}

theorem toBits_ofNumeral (whole fraction : List Char) :
    (ofNumeral whole fraction).toBits.toNat = (Decimal.ofNumeral whole fraction).bits :=
  Binary.toBits_ofBits (Binary.nearest_le _ _)

theorem isFinite_ofNumeral (whole fraction : List Char) :
    (ofNumeral whole fraction).isFinite =
      decide ((Decimal.ofNumeral whole fraction).bits < Binary.infinity) :=
  Binary.isFinite_ofBits (Binary.nearest_le _ _)

/-- A number that a numeral stands for has no sign and is not a NaN. -/
theorem toList_text_ofNumeral (whole fraction : List Char) :
    (text (ofNumeral whole fraction)).toList =
      magnitudeText (Decimal.ofNumeral whole fraction).bits := by
  have bound : (Decimal.ofNumeral whole fraction).bits ≤ Binary.infinity := Binary.nearest_le _ _
  have top : Binary.infinity < Binary.signBit := by decide
  have unsigned : (Decimal.ofNumeral whole fraction).bits % Binary.signBit =
      (Decimal.ofNumeral whole fraction).bits := Nat.mod_eq_of_lt (by omega)
  rw [text, String.toList_ofList, toBits_ofNumeral, chars]
  simp only [unsigned]
  rw [if_neg (by omega), if_pos (by omega)]

/-- The text of a finite number is a numeral for the same number. -/
theorem exists_numeral_text (finite : (ofNumeral whole fraction).isFinite = true) :
    ∃ digits decimals, IsNumeral digits decimals ∧
      (text (ofNumeral whole fraction)).toList = numeral digits decimals ∧
      ofNumeral digits decimals = ofNumeral whole fraction := by
  rw [isFinite_ofNumeral, decide_eq_true_eq] at finite
  obtain ⟨digits, decimals, form, written, value⟩ :=
    Decimal.exists_numeral_chars (Decimal.shortest (Decimal.ofNumeral whole fraction).bits)
  refine ⟨digits, decimals, form, ?_, ?_⟩
  · rw [toList_text_ofNumeral, magnitudeText, if_neg (Nat.ne_of_lt finite), written]
  · rw [ofNumeral, value, Decimal.bits_shortest finite, ofNumeral]

/-- The text of a number that is too large is a word. -/
theorem text_of_infinite (infinite : (ofNumeral whole fraction).isFinite = false) :
    text (ofNumeral whole fraction) = "inf" := by
  rw [isFinite_ofNumeral, decide_eq_false_iff_not] at infinite
  have last : (Decimal.ofNumeral whole fraction).bits = Binary.infinity :=
    Nat.le_antisymm (Binary.nearest_le _ _) (Nat.le_of_not_lt infinite)
  apply String.toList_inj.mp
  rw [toList_text_ofNumeral, last]
  rfl

end Number
end BlockScript
