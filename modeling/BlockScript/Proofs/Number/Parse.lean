import BlockScript.Number.Parse
import BlockScript.Proofs.Number.RoundTrip

/-!
# Numerals are read

## Main result

`Number.parse?_numeral`: every numeral stands for a number, and it is the one that its digits on
both sides of the point give.

## Proof strategy

A numeral begins with a digit, so it has no sign and is none of the words. Its digits are taken
up to the point and from there to the end, where no exponent is left.
-/

namespace BlockScript

/-! ### Stretches of a class -/

section

variable {body rest : List Char} {p : Char → Bool}

/-- A stretch of characters of a class ends where another character follows. -/
theorem takeWhile_append (inside : ∀ c ∈ body, p c = true)
    (stops : ∀ c, rest.head? = some c → p c = false) : (body ++ rest).takeWhile p = body := by
  rw [List.takeWhile_append_of_pos inside]
  cases rest with
  | nil => simp
  | cons c tail => simp [stops c rfl]

theorem dropWhile_append (inside : ∀ c ∈ body, p c = true)
    (stops : ∀ c, rest.head? = some c → p c = false) : (body ++ rest).dropWhile p = rest := by
  rw [List.dropWhile_append_of_pos inside]
  cases rest with
  | nil => rfl
  | cons c tail => simp [stops c rfl]

end

namespace Number

variable {whole fraction : List Char}

/-- The first character of a numeral is a digit. -/
theorem numeral_eq_cons (form : IsNumeral whole fraction) :
    ∃ first rest, whole = first :: rest ∧ Character.isDigit first = true := by
  obtain ⟨first, rest, rfl⟩ := List.exists_cons_of_ne_nil form.filled
  exact ⟨first, rest, rfl, form.digits first (by simp)⟩

theorem numeral_cons (first : Char) (whole fraction : List Char) :
    numeral (first :: whole) fraction = first :: numeral whole fraction := by
  unfold numeral
  split <;> rfl

/-! ### Reading a numeral -/

/-- Behind the digits in front of it, a numeral has a point and digits, or nothing. -/
theorem split_numeral (form : IsNumeral whole fraction) :
    (numeral whole fraction).takeWhile Character.isDigit = whole ∧
      splitFraction ((numeral whole fraction).dropWhile Character.isDigit) = (fraction, []) := by
  obtain ⟨before, after⟩ := List.forall_mem_append.mp form.digits
  unfold numeral
  split
  next alone =>
    rw [List.takeWhile_eq_self_iff.mpr before, List.dropWhile_eq_nil_iff.mpr before, alone]
    exact ⟨rfl, rfl⟩
  next =>
    have point : ∀ c, ('.' :: fraction).head? = some c → Character.isDigit c = false := by
      simp [Character.isDigit]
    rw [takeWhile_append before point, dropWhile_append before point, splitFraction,
      List.takeWhile_eq_self_iff.mpr after, List.dropWhile_eq_nil_iff.mpr after]
    exact ⟨rfl, rfl⟩

theorem decimal?_numeral (form : IsNumeral whole fraction) :
    decimal? (numeral whole fraction) = some (.ofNumeral whole fraction) := by
  obtain ⟨before, behind⟩ := split_numeral form
  have filled : whole ++ fraction ≠ [] := by simp [form.filled]
  simp [decimal?, before, behind, filled, exponent?, Decimal.shift, Decimal.ofNumeral,
    Decimal.tenTo]

/-- The words begin with letters, in either case. -/
theorem magnitude?_of_isDigit {first : Char} (digit : Character.isDigit first = true)
    (rest : List Char) :
    magnitude? (first :: rest) = (decimal? (first :: rest)).map Decimal.bits := by
  have small : first.toLower = first := by
    simp only [Character.isDigit, Bool.and_eq_true, decide_eq_true_eq, Char.le_def,
      UInt32.le_iff_toNat_le] at digit
    have bound : first.toNat ≤ 57 := digit.2
    refine dif_neg fun upper => ?_
    have above : 65 ≤ first.toNat := UInt32.le_iff_toNat_le.mp upper.1
    omega
  have noLetter : first ≠ 'i' ∧ first ≠ 'n' := by
    constructor <;> (rintro rfl; exact absurd digit (by decide))
  simp [magnitude?, small, noLetter]

theorem sign_of_isDigit {first : Char} (digit : Character.isDigit first = true)
    (rest : List Char) : sign (first :: rest) = (false, first :: rest) := by
  unfold sign
  split
  next same =>
    obtain ⟨rfl, -⟩ := List.cons.inj same
    exact absurd digit (by decide)
  next same =>
    obtain ⟨rfl, -⟩ := List.cons.inj same
    exact absurd digit (by decide)
  next => rfl

/-- Every numeral is read, as the number that its digits give. -/
theorem parse?_numeral (form : IsNumeral whole fraction) :
    parse? (numeral whole fraction) = some (ofNumeral whole fraction) := by
  have decimal := decimal?_numeral form
  obtain ⟨first, rest, rfl, digit⟩ := numeral_eq_cons form
  rw [numeral_cons] at decimal ⊢
  simp [parse?, sign_of_isDigit digit, magnitude?_of_isDigit digit, decimal, ofNumeral]

end Number
end BlockScript
