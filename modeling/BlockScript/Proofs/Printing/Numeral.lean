import BlockScript.Proofs.Number.Overflow
import BlockScript.Proofs.Source.Layout
import BlockScript.Syntax.Text

/-!
# Number literals that are printed and read again

## Main result

`scan_render_numeral`: the text of a number literal is read as one number token with the value of
the literal if and only if the numeral was below `Binary.overflow`. Any other numeral stands for
infinity, whose text is read as a name.

## Proof strategy

A text that is a lexeme is read as one token. The text of a finite number is a numeral for the
same number, and that of infinity is a word that is not reserved.
-/

namespace BlockScript

/-- A lexeme on one line that stands alone is read as one token. -/
theorem scan_lexeme {kind : TokenKind} {literal : Option Literal} {text : List Char}
    (lexeme : Lexeme kind literal text) (oneLine : '\n' ∉ text) :
    scan (String.ofList text) =
      ⟨[⟨kind, String.ofList text, literal, 1⟩, Token.endOfInput 1], []⟩ := by
  obtain ⟨first, more, rfl⟩ := List.exists_cons_of_ne_nil lexeme.ne_nil
  have alone := Piece.cut_lexeme lexeme kind.endsBefore_nil
  rw [List.append_nil] at alone
  have segments : pieces (first :: more) = [⟨.token kind literal, first :: more⟩] := by
    rw [pieces_cons, alone, pieces_nil]
  have noLines : (first :: more).count '\n' = 0 := List.count_eq_zero.mpr oneLine
  rw [scan, Cursor.scan_eq, Cursor.items, Cursor.start, String.toList_ofList, segments]
  simp [itemsFrom, Piece.item?, Piece.lines, Item.token?, Item.error?, noLines]

namespace Number

variable {whole fraction : List Char}

theorem newline_not_mem_numeral (form : IsNumeral whole fraction) :
    '\n' ∉ numeral whole fraction := by
  intro member
  have digits : ∀ c ∈ whole ++ fraction, c ≠ '\n' := by
    rintro c inside rfl
    exact absurd (form.digits _ inside) (by decide)
  unfold numeral at member
  split at member
  next => exact digits _ (List.mem_append_left _ member) rfl
  next =>
    rcases List.mem_append.mp member with before | after
    · exact digits _ (List.mem_append_left _ before) rfl
    · rcases List.mem_cons.mp after with point | after
      · exact absurd point (by decide)
      · exact digits _ (List.mem_append_right _ after) rfl

/-- A numeral is read as the number that it stands for. -/
theorem scan_numeral (form : IsNumeral whole fraction) :
    scan (String.ofList (numeral whole fraction)) =
      ⟨[⟨.number, String.ofList (numeral whole fraction),
          some (.number (ofNumeral whole fraction)), 1⟩, Token.endOfInput 1], []⟩ :=
  scan_lexeme (.number form) (newline_not_mem_numeral form)

/-- The text of a finite number is read as the same number. -/
theorem scan_text_of_finite (finite : (ofNumeral whole fraction).isFinite = true) :
    scan (text (ofNumeral whole fraction)) =
      ⟨[⟨.number, text (ofNumeral whole fraction),
          some (.number (ofNumeral whole fraction)), 1⟩, Token.endOfInput 1], []⟩ := by
  obtain ⟨digits, decimals, form, written, value⟩ := exists_numeral_text finite
  have read := scan_numeral form
  rwa [← written, String.ofList_toList, value] at read

/-- Infinity is read as a name. -/
theorem scan_infinity :
    scan "inf" = ⟨[⟨.identifier, "inf", none, 1⟩, Token.endOfInput 1], []⟩ := by
  decide +kernel

end Number

/-- **Number literals that are printed and read again.** A numeral of any length is read as one
number token. The text of the literal with its number is read without an error, and as one number
token with the same number if and only if the value of the numeral is below the bound past which
there are no finite doubles. Otherwise the number is infinite, and its text is read as a name. -/
theorem scan_render_numeral {whole fraction : List Char}
    (form : Number.IsNumeral whole fraction) :
    let source := String.ofList (Number.numeral whole fraction)
    let x := Number.ofNumeral whole fraction
    let printed := Expr.render (.literal (.number x))
    let digits := Nat.ofDigitChars 10 (whole ++ fraction) 0
    scan source = ⟨[⟨.number, source, some (.number x), 1⟩, Token.endOfInput 1], []⟩ ∧
    (scan printed).errors = [] ∧
    ((∃ lexeme line,
        (scan printed).tokens = [⟨.number, lexeme, some (.number x), line⟩, Token.endOfInput line]) ↔
      digits < Binary.overflow * 10 ^ fraction.length) ∧
    (Binary.overflow * 10 ^ fraction.length ≤ digits →
      (scan printed).tokens = [⟨.identifier, "inf", none, 1⟩, Token.endOfInput 1]) := by
  intro source x printed digits
  have text : printed = Number.text x := Expr.render_eq _
  have bound := Number.isFinite_ofNumeral_iff whole fraction
  refine ⟨Number.scan_numeral form, ?_⟩
  cases finite : x.isFinite with
  | true =>
    have below := bound.mp finite
    rw [text, Number.scan_text_of_finite finite]
    exact ⟨rfl, ⟨fun _ => below, fun _ => ⟨_, _, rfl⟩⟩, fun above => absurd below (by omega)⟩
  | false =>
    have above : ¬digits < Binary.overflow * 10 ^ fraction.length := fun below => by
      simp [x, bound.mpr below] at finite
    rw [text, Number.text_of_infinite finite, Number.scan_infinity]
    refine ⟨rfl, ⟨?_, fun below => absurd below above⟩, fun _ => rfl⟩
    rintro ⟨lexeme, line, tokens⟩
    simp at tokens

/-- Zeros at both ends are lost, but not the number. -/
theorem scan_render_numeral_zeros :
    Number.IsNumeral ['0', '2'] ['5', '0'] ∧
    scan "02.50" =
      ⟨[⟨.number, "02.50", some (.number 2.5), 1⟩, Token.endOfInput 1], []⟩ ∧
    (scan "2.5").errors = [] ∧
    ∃ lexeme line, (scan "2.5").tokens =
      [⟨.number, lexeme, some (.number 2.5), line⟩, Token.endOfInput line] := by
  have form : Number.IsNumeral ['0', '2'] ['5', '0'] := ⟨by decide, List.all_eq_true.mp rfl⟩
  have value : Number.ofNumeral ['0', '2'] ['5', '0'] = 2.5 := by decide +kernel
  have printed : Expr.render (.literal (.number 2.5)) = "2.5" := by decide +kernel
  have below : Nat.ofDigitChars 10 (['0', '2'] ++ ['5', '0']) 0 <
      Binary.overflow * 10 ^ ['5', '0'].length := by
    decide +kernel
  obtain ⟨read, clean, survives, -⟩ := scan_render_numeral form
  rw [value] at read
  rw [value, printed] at clean
  rw [value, printed] at survives
  exact ⟨form, read, clean, survives.mpr below⟩

/-- The text of the literal is the name `inf`. -/
theorem scan_render_numeral_infinite :
    let zeros := List.replicate 309 '0'
    let x := Number.ofNumeral ('1' :: zeros) []
    Number.IsNumeral ('1' :: zeros) [] ∧
    ¬∃ lexeme line, (scan (Expr.render (.literal (.number x)))).tokens =
      [⟨.number, lexeme, some (.number x), line⟩, Token.endOfInput line] := by
  intro zeros x
  constructor
  · refine ⟨List.cons_ne_nil _ _, fun c member => ?_⟩
    rw [List.append_nil, List.mem_cons] at member
    rcases member with rfl | zero
    · decide
    · rw [(List.mem_replicate.mp zero).2]
      decide
  · have read : (scan (Expr.render (.literal (.number x)))).tokens =
        [⟨.identifier, "inf", none, 1⟩, Token.endOfInput 1] := by
      decide +kernel
    rintro ⟨lexeme, line, number⟩
    simp [read] at number

end BlockScript
