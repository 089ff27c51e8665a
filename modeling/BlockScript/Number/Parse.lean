import BlockScript.Number.Text
import BlockScript.Source.Character

/-!
# Reading numbers

Which texts stand for a number, and for which one. A number is read from digits with at most one
point among them and perhaps an exponent behind, or from a word for infinity or for what is not a
number, in letters of either case. A sign may stand in front. All other texts stand for none.
-/
namespace BlockScript.Number

/-- Whether a text has a minus in front, and what stands behind the sign. -/
def sign : List Char → Bool × List Char
  | '-' :: rest => (true, rest)
  | '+' :: rest => (false, rest)
  | rest => (false, rest)

/-- The exponent that a text is: a letter, perhaps a sign, and digits. No text at all is the
exponent zero. -/
def exponent? : List Char → Option Int
  | [] => some 0
  | letter :: rest =>
    let (negative, digits) := sign rest
    if letter ∈ ['e', 'E'] ∧ digits ≠ [] ∧ digits.all Character.isDigit then
      let magnitude : Int := Nat.ofDigitChars 10 digits 0
      some (if negative then -magnitude else magnitude)
    else none

/-- The digits behind the point with which a text begins, and what follows them. Without a point
there are none. -/
def splitFraction : List Char → List Char × List Char
  | '.' :: rest => (rest.takeWhile Character.isDigit, rest.dropWhile Character.isDigit)
  | rest => ([], rest)

/-- The fraction that a text without a sign stands for. There must be a digit on one side of the
point. -/
def decimal? (text : List Char) : Option Decimal :=
  let whole := text.takeWhile Character.isDigit
  let (fraction, rest) := splitFraction (text.dropWhile Character.isDigit)
  if whole ++ fraction = [] then none
  else (exponent? rest).map (Decimal.ofNumeral whole fraction).shift

def magnitude? (text : List Char) : Option Nat :=
  let word := text.map Char.toLower
  if word ∈ [['i', 'n', 'f'], "infinity".toList] then some Binary.infinity
  else if word = ['n', 'a', 'n'] then some Binary.notANumber
  else (decimal? text).map Decimal.bits

/-- The number that a text stands for, rounded to the nearest double. -/
def parse? (text : List Char) : Option Float :=
  let (negative, unsigned) := sign text
  (magnitude? unsigned).map fun bits =>
    Float.ofBits (UInt64.ofNat (if negative then Binary.signBit + bits else bits))

example : (parse? "-.5e+1".toList).map text = some "-5" := by decide +kernel
example : (parse? "+Infinity".toList).map text = some "inf" := by decide +kernel
example : parse? "1.e".toList = none := by decide +kernel

end BlockScript.Number
