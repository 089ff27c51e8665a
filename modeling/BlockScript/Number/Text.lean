import BlockScript.Number.Shortest

/-!
# Numbers as text

How the language writes its numbers and reads its numerals. A number is written
with the shortest digits that read back, always positionally; a whole number has
no point. Negative zero keeps its sign, infinities are `inf` and `-inf`, and what
is not a number is `NaN` whatever its sign.
-/
namespace BlockScript.Number

/-- The number that a numeral stands for, rounded to the nearest double. -/
def ofNumeral (whole fraction : List Char) : Float :=
  Float.ofBits (UInt64.ofNat (Decimal.ofNumeral whole fraction).bits)

/-- The text of a pattern that stands for a number, its sign left out. -/
def magnitudeText (bits : Nat) : List Char :=
  if bits = Binary.infinity then ['i', 'n', 'f'] else (Decimal.shortest bits).chars

/-- The characters of the pattern of a double. -/
def chars (bits : Nat) : List Char :=
  let unsigned := bits % Binary.signBit
  if Binary.infinity < unsigned then ['N', 'a', 'N']
  else if bits < Binary.signBit then magnitudeText unsigned
  else '-' :: magnitudeText unsigned

def text (x : Float) : String :=
  String.ofList (chars x.toBits.toNat)

/-! ### The form of a number -/

example : text (0.1 + 0.2) = "0.30000000000000004" := by decide +kernel
example : text (Float.ofBits 0x444b1ae4d6e2ef50) = "1000000000000000000000" := by decide +kernel
-- Half way between two decimals of seventeen digits: the larger one is written.
example : text (Float.ofBits 0x3e60000000000000) = "0.000000029802322387695313" := by
  decide +kernel
example : text (-0.0) = "-0" := by decide +kernel
example : text (-1.0 / 0.0) = "-inf" := by decide +kernel
example : text (0.0 / 0.0) = "NaN" := by decide +kernel

end BlockScript.Number
