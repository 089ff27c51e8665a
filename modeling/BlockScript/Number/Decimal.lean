import BlockScript.Number.Binary

/-!
# Decimal fractions

A decimal fraction is a natural number of units of `10 ^ (-scale)`. It is written
positionally, as digits with at most one point among them and never with an
exponent, and read back from the digits on both sides of the point.
-/
namespace BlockScript

/-- The fraction `digits / 10 ^ scale`. -/
structure Decimal where
  digits : Nat
  scale : Nat
  deriving DecidableEq, Repr

namespace Decimal

def tenTo (n : Nat) : Nat := Nat.pow 10 n

/-- The fraction that a numeral stands for: the digits before the point and the
digits after it. -/
def ofNumeral (whole fraction : List Char) : Decimal :=
  ⟨Nat.ofDigitChars 10 (whole ++ fraction) 0, fraction.length⟩

def shift (d : Decimal) (exponent : Int) : Decimal :=
  ⟨d.digits * tenTo exponent.toNat, d.scale + (-exponent).toNat⟩

/-- The pattern of the double nearest to the fraction. -/
def bits (d : Decimal) : Nat :=
  Binary.nearest d.digits (tenTo d.scale)

/-- The digits of `n`, with zeros in front up to `width` characters. -/
def padded (width n : Nat) : List Char :=
  let digits := Nat.toDigits 10 n
  List.replicate (width - digits.length) '0' ++ digits

/-- The positional form. A fraction of scale zero has no point. -/
def chars (d : Decimal) : List Char :=
  if d.scale = 0 then Nat.toDigits 10 d.digits
  else
    Nat.toDigits 10 (d.digits / tenTo d.scale) ++
      '.' :: padded d.scale (d.digits % tenTo d.scale)

/-- Zeros at the end of the digits after the point, dropped. -/
def strip (digits : Nat) : Nat → Decimal
  | 0 => ⟨digits, 0⟩
  | scale + 1 =>
    if digits % 10 = 0 then strip (digits / 10) scale else ⟨digits, scale + 1⟩

/-! ### Dropping zeros -/

theorem tenTo_succ (n : Nat) : tenTo (n + 1) = tenTo n * 10 := rfl

/-- Dropping zeros at the end keeps the fraction. -/
theorem strip_digits (digits scale : Nat) :
    (strip digits scale).digits * tenTo scale = digits * tenTo (strip digits scale).scale := by
  induction scale generalizing digits with
  | zero => simp [strip]
  | succ scale ih =>
    unfold strip
    split
    next ends =>
      have whole : digits / 10 * 10 = digits :=
        Nat.div_mul_cancel (Nat.dvd_of_mod_eq_zero ends)
      calc (strip (digits / 10) scale).digits * tenTo (scale + 1)
          = (strip (digits / 10) scale).digits * tenTo scale * 10 := by
            rw [tenTo_succ, Nat.mul_assoc]
        _ = digits / 10 * tenTo (strip (digits / 10) scale).scale * 10 := by rw [ih]
        _ = digits / 10 * 10 * tenTo (strip (digits / 10) scale).scale := by
            rw [Nat.mul_assoc, Nat.mul_comm (tenTo _) 10, ← Nat.mul_assoc]
        _ = digits * tenTo (strip (digits / 10) scale).scale := by rw [whole]
    next => rfl

end Decimal
end BlockScript
