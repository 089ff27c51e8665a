import BlockScript.Number.Decimal

/-!
# The shortest decimal of a double

Every finite double is a decimal fraction, but mostly a long one. Among the
decimals that read back as the same double, `shortest` chooses one with the
fewest digits, and of two such neighbours the one nearer to the double; an exact
tie goes to the larger. It tries one digit, two digits and so on: on the grid of
each length only the two neighbours of the double can read back as it, unless a
shorter decimal does.
-/
namespace BlockScript.Decimal

/-- The decimal fraction that a finite pattern is. A unit of `1 / 2 ^ s` is written as
`5 ^ s / 10 ^ s`. -/
def exact (bits : Nat) : Decimal :=
  let exponent := Binary.exponent bits
  if 1075 ≤ exponent then ⟨Binary.significand bits * Binary.twoTo (exponent - 1075), 0⟩
  else
    let scale := 1075 - max exponent 1
    ⟨Binary.significand bits * Nat.pow 5 scale, scale⟩

/-- Of two neighbours of `value` on a grid, the nearer of those that read back as
the pattern; the larger when both are equally near. -/
def nearer? (bits : Nat) (value below above : Decimal) : Option Decimal :=
  if below.bits = bits then
    if above.bits = bits ∧ above.digits - value.digits ≤ value.digits - below.digits then
      some above
    else some below
  else if above.bits = bits then some above
  else none

/-- A decimal of at most `count` digits that reads back as the pattern, if one of
the two neighbours of `value` on that grid does. `length` is how many digits
`value` has. -/
def onGrid? (bits : Nat) (value : Decimal) (length count : Nat) : Option Decimal :=
  let grid := tenTo (length - count)
  let steps := value.digits / grid
  nearer? bits value ⟨steps * grid, value.scale⟩ ⟨(steps + 1) * grid, value.scale⟩

/-- The shortest decimal that reads back as a finite pattern, without zeros at its
end. Seventeen digits always suffice. -/
def shortest (bits : Nat) : Decimal :=
  let value := exact bits
  let length := (Nat.toDigits 10 value.digits).length
  -- One digit first: the first grid with a hit has the fewest digits.
  let found := ((List.range 17).map (· + 1)).findSome? (onGrid? bits value length)
  let chosen := found.getD value
  strip chosen.digits chosen.scale

/-- The chosen neighbour reads back as the pattern. -/
theorem bits_of_nearer? {bits : Nat} {value below above found : Decimal}
    (chosen : nearer? bits value below above = some found) : found.bits = bits := by
  unfold nearer? at chosen
  split at chosen
  next lower =>
    split at chosen
    next upper => cases chosen; exact upper.1
    next => cases chosen; exact lower
  next =>
    split at chosen
    next upper => cases chosen; exact upper
    next => cases chosen

/-- Whatever is found on a grid reads back as the pattern. -/
theorem bits_of_onGrid? {bits : Nat} {value found : Decimal} {length count : Nat}
    (chosen : onGrid? bits value length count = some found) : found.bits = bits :=
  bits_of_nearer? chosen

end BlockScript.Decimal
