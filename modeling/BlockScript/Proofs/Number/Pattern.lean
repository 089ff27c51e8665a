import BlockScript.Number.Text
import Mathlib

/-!
# Doubles and their patterns

A double is kept as its pattern, but only one pattern stands for NaN: taking a pattern
to a double and back can change it.

## Main results

`toBits_ofBits`: no pattern up to that of infinity is changed.
`isFinite_ofBits`: of these, all but infinity itself are finite doubles.

## Proof strategy

Packing what has been unpacked changes the patterns of NaN alone, and these are past
infinity: up to there, only infinity has the highest exponent.
-/

namespace BlockScript.Binary

open Float.Model
open Float.Model.UnpackedFloat (unpackExponent unpackMantissa)

variable {b : BitVec Format.binary64.numBits}

/-! ### The fields of a pattern -/

theorem toNat_unpackExponent (b : BitVec Format.binary64.numBits) :
    (unpackExponent b).toNat = b.toNat / 2 ^ 52 % 2 ^ 11 := by
  simp [unpackExponent, Nat.shiftRight_eq_div_pow]

theorem toNat_unpackMantissa (b : BitVec Format.binary64.numBits) :
    (unpackMantissa b).toNat = b.toNat % 2 ^ 52 := by
  simp [unpackMantissa]

/-! ### Patterns up to infinity -/

/-- Up to infinity the highest exponent is that of infinity alone. -/
private theorem highest_iff (bound : b.toNat ≤ infinity) :
    unpackExponent b = -1#11 ↔ b.toNat = infinity := by
  have top : infinity = 2047 * 2 ^ 52 := rfl
  rw [← BitVec.toNat_inj, toNat_unpackExponent]
  change b.toNat / 2 ^ 52 % 2 ^ 11 = 2047 ↔ b.toNat = infinity
  constructor <;> intro <;> omega

private theorem fraction_of_highest (bound : b.toNat ≤ infinity)
    (highest : unpackExponent b = -1#11) : unpackMantissa b = 0#52 := by
  have last := (highest_iff bound).mp highest
  apply BitVec.eq_of_toNat_eq
  rw [toNat_unpackMantissa, last]
  rfl

/-- Unpacking loses nothing of a pattern up to infinity. -/
private theorem pack_unpack (bound : b.toNat ≤ infinity) :
    UnpackedFloat.pack Format.binary64 (UnpackedFloat.unpack Format.binary64 b) = b := by
  have number : UnpackedFloat.isNaNBits b = false := by
    by_contra nan
    simp only [UnpackedFloat.isNaNBits, Bool.not_eq_false, decide_eq_true_eq] at nan
    exact nan.2 (fraction_of_highest bound nan.1)
  rw [UnpackedFloat.pack_unpack b, number]
  rfl

private theorem isFinite_unpack (bound : b.toNat ≤ infinity) :
    (UnpackedFloat.unpack Format.binary64 b).isFinite = decide (b.toNat < infinity) := by
  unfold UnpackedFloat.unpack
  dsimp only
  split
  next highest =>
    have last := (highest_iff bound).mp highest
    rw [if_pos (fraction_of_highest bound highest)]
    simp [UnpackedFloat.isFinite, last]
  next regular =>
    -- Without the highest exponent a pattern is below infinity, and finite.
    have below : b.toNat < infinity :=
      Nat.lt_of_le_of_ne bound (fun last => regular ((highest_iff bound).mpr last))
    split
    · split <;> simp [UnpackedFloat.isFinite, below]
    · simp [UnpackedFloat.isFinite, below]

private theorem toNat_word {bits : Nat} (bound : bits ≤ infinity) :
    (UInt64.ofNat bits).toBitVec.toNat = bits := by
  have top : infinity = 2047 * 2 ^ 52 := rfl
  change bits % 2 ^ 64 = bits
  omega

/-- No pattern up to that of infinity is changed by taking it to a double. -/
theorem toBits_ofBits {bits : Nat} (bound : bits ≤ infinity) :
    (Float.ofBits (UInt64.ofNat bits)).toBits.toNat = bits := by
  have whole : UnpackedFloat.pack Format.binary64
      (UnpackedFloat.unpack Format.binary64 (UInt64.ofNat bits).toBitVec) =
        (UInt64.ofNat bits).toBitVec :=
    pack_unpack (by rw [toNat_word bound]; exact bound)
  change (UnpackedFloat.pack Format.binary64
    (UnpackedFloat.unpack Format.binary64 (UInt64.ofNat bits).toBitVec)).toNat = bits
  rw [whole, toNat_word bound]

/-- Of the patterns up to infinity, all but infinity itself are finite doubles. -/
theorem isFinite_ofBits {bits : Nat} (bound : bits ≤ infinity) :
    (Float.ofBits (UInt64.ofNat bits)).isFinite = decide (bits < infinity) := by
  have word := toNat_word bound
  have whole : UnpackedFloat.pack Format.binary64
      (UnpackedFloat.unpack Format.binary64 (UInt64.ofNat bits).toBitVec) =
        (UInt64.ofNat bits).toBitVec :=
    pack_unpack (by rw [word]; exact bound)
  change (UnpackedFloat.unpack Format.binary64 (UnpackedFloat.pack Format.binary64
    (UnpackedFloat.unpack Format.binary64 (UInt64.ofNat bits).toBitVec))).isFinite = _
  rw [whole, isFinite_unpack (by rw [word]; exact bound), word]

end BlockScript.Binary
