import BlockScript.Proofs.Source.Layout
import BlockScript.Proofs.Source.Munch

/-!
# Texts on lines of their own

Two texts are joined by a newline between them. Whatever the first one ends with, a newline
is no part of it, so the pieces of both are the pieces of the whole. Only a string that is
not closed would go on behind the newline.

## Main results

`pieces_newline`: the pieces of two texts joined by a newline.
`scan_append_newline`: what a scan of such a text gives. What belongs to the second text is
further down by the lines of the first.

## Proof strategy

No lexeme but a string goes on over a blank (`Piece.prefix_of_isBlank`), so with a blank behind a
text there begin the same lexemes as before, and the same is cut off; a comment stops in front of
a newline only. The pieces follow by induction on the text, and the items by induction on the
pieces.
-/

namespace BlockScript

/-! ### Moving down -/

/-- The token a number of lines further down. -/
def Token.down (lines : Nat) (token : Token) : Token :=
  { token with line := token.line + lines }

def SyntaxError.down (lines : Nat) (error : SyntaxError) : SyntaxError :=
  { error with line := error.line + lines }

def Item.down (lines : Nat) : Item → Item
  | .ok token => .ok (token.down lines)
  | .error error => .error (error.down lines)

theorem Piece.item?_down (piece : Piece) (line lines : Nat) :
    piece.item? (line + lines) = (piece.item? line).map (Item.down lines) := by
  obtain ⟨sort, text⟩ := piece
  cases sort <;> rfl

theorem itemsFrom_down (line lines : Nat) (segments : List Piece) :
    itemsFrom (line + lines) segments = (itemsFrom line segments).map (Item.down lines) := by
  induction segments generalizing line with
  | nil => rfl
  | cons first rest ih =>
    have passed : line + lines + first.lines = line + first.lines + lines := by omega
    rw [itemsFrom, itemsFrom]
    simp only [passed, Piece.item?_down first (line + first.lines) lines, ih]
    cases first.item? (line + first.lines) <;> rfl

theorem itemsFrom_append (line : Nat) (segments more : List Piece) :
    itemsFrom line (segments ++ more) =
      itemsFrom line segments ++
        itemsFrom (line + (segments.flatMap Piece.text).count '\n') more := by
  induction segments generalizing line with
  | nil => rfl
  | cons first rest ih =>
    have passed : line + ((first :: rest).flatMap Piece.text).count '\n' =
        line + first.lines + (rest.flatMap Piece.text).count '\n' := by
      rw [List.flatMap_cons, List.count_append, Piece.lines]
      omega
    rw [List.cons_append, itemsFrom, itemsFrom, passed]
    simp only [ih]
    cases first.item? (line + first.lines) <;> rfl

/-! ### Cutting in front of a blank -/

/-- Blanks are in strings, and in no other lexemes. -/
theorem Lexeme.string_of_isBlank {kind : TokenKind} {literal : Option Literal} {text : List Char}
    {c : Char} (lexeme : Lexeme kind literal text) (inside : c ∈ text)
    (blank : Character.isBlank c = true) : ∃ body, '"' ∉ body ∧ text = '"' :: body ++ ['"'] := by
  obtain ⟨noDigit, noWord, noPoint, -⟩ := Character.ne_of_isBlank blank
  have noStart : Character.isWordStart c = false := by
    simp only [Character.isWordPart, Bool.or_eq_false_iff] at noWord
    exact noWord.1
  have noPart {first : Char} {rest : List Char} (start : Character.isWordStart first = true)
      (parts : ∀ d ∈ rest, Character.isWordPart d = true) : c ∉ first :: rest := by
    rw [List.mem_cons]
    rintro (rfl | later)
    · simp [start] at noStart
    · simp [parts c later] at noWord
  cases lexeme with
  | symbol symbol =>
    have visible : ∀ d ∈ symbol.spelling, Character.isBlank d = false := by
      cases symbol <;> simp [Symbol.spelling, Character.isBlank]
    simp [visible c inside] at blank
  | keyword word =>
    obtain ⟨first, rest, spelled, start, parts⟩ := word.spelling_eq_cons
    rw [spelled] at inside
    exact absurd inside (noPart start parts)
  | identifier start parts => exact absurd inside (noPart start parts)
  | string unquoted => exact ⟨_, unquoted, rfl⟩
  | @number whole fraction form =>
    exfalso
    have digits : c ∉ whole ++ fraction := fun member => by
      simp [form.digits c member] at noDigit
    rw [Number.numeral] at inside
    split at inside
    · exact digits (List.mem_append_left _ inside)
    -- The point is no blank either.
    · exact digits (by simpa [noPoint] using inside)

namespace Piece

variable {c : Char} (first : Char) (rest more : List Char)

/-- No lexeme goes on over a blank, unless a string is open there. -/
theorem prefix_of_isBlank (blank : Character.isBlank c = true)
    (closed : (cut first rest).1.sort ≠ .unterminated) {lexeme : List Char}
    (complete : IsLexeme lexeme) (front : lexeme <+: first :: (rest ++ c :: more)) :
    lexeme <+: first :: rest := by
  have whole : first :: rest <+: first :: (rest ++ c :: more) := ⟨c :: more, rfl⟩
  rcases List.prefix_or_prefix_of_prefix front whole with short | ⟨tail, rfl⟩
  · exact short
  cases tail with
  | nil => rw [List.append_nil]
  | cons d tail =>
    exfalso
    rw [List.cons_append, List.cons_prefix_cons, List.prefix_append_right_inj,
      List.cons_prefix_cons] at front
    obtain ⟨-, rfl, -⟩ := front
    obtain ⟨kind, literal, lexical⟩ := complete
    obtain ⟨body, unquoted, quoted⟩ := lexical.string_of_isBlank (by simp) blank
    obtain ⟨rfl, same⟩ := List.cons.inj quoted
    -- The quote that closes the string is behind the blank.
    have unclosed : '"' ∉ rest := by
      have front : rest <+: body ++ ['"'] := ⟨d :: tail, same⟩
      rcases List.prefix_concat_iff.mp front with rfl | inner
      · simp at same
      · exact fun quote => unquoted (inner.subset quote)
    have runsOn : rest.dropWhile (· ≠ '"') = [] := by
      rw [List.dropWhile_eq_nil_iff]
      exact fun d member => decide_eq_true (ne_of_mem_of_not_mem member unclosed)
    apply closed
    rw [cut_quote, cutString, runsOn]

/-- A blank is no part of the piece in front of it, unless that is a string that is not closed
or a comment at the end of the text. -/
theorem cut_blank (blank : Character.isBlank c = true)
    (closed : (cut first rest).1.sort ≠ .unterminated)
    (apart : (cut first rest).1.sort = .comment → (cut first rest).2 ≠ [] ∨ c = '\n') :
    cut first (rest ++ c :: more) = ((cut first rest).1, (cut first rest).2 ++ c :: more) := by
  obtain ⟨d, body, spelled⟩ := List.exists_cons_of_ne_nil (cut_text_ne_nil first rest)
  have parts := cut_text first rest
  rw [spelled, List.cons_append] at parts
  obtain ⟨rfl, same⟩ := List.cons.inj parts
  have whole : rest ++ c :: more = body ++ ((cut d rest).2 ++ c :: more) := by
    rw [← List.append_assoc, same]
  rw [whole]
  refine cut_congr spelled closed ?_ ?_ ?_
  · intro comment next head
    by_cases last : (cut d rest).2 = []
    · have newline : c = '\n' := (apart comment).resolve_left (not_not_intro last)
      simpa [last, newline] using head.symm
    -- The comment ends within the text, so the newline is there already.
    · apply (cut_lawful d rest).eq_newline_of_comment comment
      rwa [flatMap_text_pieces, ← List.head?_append_of_ne_nil _ last]
  · rw [← whole]
    intro next
    cases rest with
    | nil => simp [(Character.ne_of_isBlank blank).2.2.2.2] at next
    | cons second more => simpa using next
  · intro lexeme complete
    rw [← whole]
    exact prefix_of_isBlank d rest more blank closed complete

end Piece

/-! ### Texts joined by a blank -/

/-- A blank is a piece of its own behind a text that leaves neither a string open nor, unless the
blank is a newline, a comment. -/
theorem pieces_blank {c : Char} (blank : Character.isBlank c = true) {text : List Char}
    (more : List Char) (closed : ∀ piece ∈ pieces text, piece.sort ≠ .unterminated)
    (apart : ∀ last ∈ (pieces text).getLast?, last.sort = .comment → c = '\n') :
    pieces (text ++ c :: more) = pieces text ++ ⟨.blank, [c]⟩ :: pieces more := by
  fun_induction pieces text with
  | case1 => rw [List.nil_append, pieces_cons, Piece.cut_of_isBlank blank, List.nil_append]
  | case2 first rest ih =>
    have ends : (Piece.cut first rest).1.sort = .comment →
        (Piece.cut first rest).2 ≠ [] ∨ c = '\n' := by
      intro comment
      by_cases last : (Piece.cut first rest).2 = []
      · refine .inr (apart _ ?_ comment)
        simp [last]
      · exact .inl last
    rw [List.cons_append, pieces_cons,
      Piece.cut_blank first rest more blank (closed _ List.mem_cons_self) ends]
    simp only [List.cons_append]
    rw [ih (fun piece member => closed piece (List.mem_cons_of_mem _ member))]
    -- What comes last behind a piece comes last after all.
    intro last member
    refine apart last ?_
    rw [List.getLast?_cons, member]
    rfl

theorem pieces_newline {text : List Char} (more : List Char)
    (closed : ∀ piece ∈ pieces text, piece.sort ≠ .unterminated) :
    pieces (text ++ '\n' :: more) = pieces text ++ ⟨.blank, ['\n']⟩ :: pieces more :=
  pieces_blank rfl more closed (fun _ _ _ => rfl)

theorem scan_eq_items (text : String) :
    scan text = ⟨(Cursor.start text).items.filterMap Item.token? ++
        [Token.endOfInput (1 + text.toList.count '\n')],
      (Cursor.start text).items.filterMap Item.error?⟩ :=
  Cursor.scan_eq (Cursor.start text)

/-- A string that is not closed is an error of the scan. -/
theorem closed_of_messages {text : String}
    (closed : ∀ error ∈ (scan text).errors, error.message ≠ "Unterminated string.") :
    ∀ piece ∈ pieces text.toList, piece.sort ≠ .unterminated := by
  rintro ⟨sort, body⟩ member rfl
  obtain ⟨before, after, parts⟩ := List.append_of_mem member
  have items : (Cursor.start text).items = itemsFrom 1 (pieces text.toList) := rfl
  refine closed (.onLine (1 + (before.flatMap Piece.text).count '\n' + body.count '\n')
    LexicalFault.unterminatedString.message) ?_ rfl
  simp only [scan_eq_items, items, parts, itemsFrom_append, List.filterMap_append]
  exact List.mem_append_right _ List.mem_cons_self

theorem closed_of_errors {text : String} (noErrors : (scan text).errors = []) :
    ∀ piece ∈ pieces text.toList, piece.sort ≠ .unterminated := by
  apply closed_of_messages
  simp [noErrors]

/-- The items of two texts on lines of their own. -/
theorem items_newline {text : String}
    (closed : ∀ piece ∈ pieces text.toList, piece.sort ≠ .unterminated) (more : String) :
    (Cursor.start (text ++ "\n" ++ more)).items =
      (Cursor.start text).items ++
        (Cursor.start more).items.map (Item.down (text.toList.count '\n' + 1)) := by
  have joined : (text ++ "\n" ++ more).toList = text.toList ++ '\n' :: more.toList := by simp
  have below : 1 + (text.toList.count '\n' + 1) = 1 + text.toList.count '\n' + 1 := by omega
  change itemsFrom 1 (pieces (text ++ "\n" ++ more).toList) =
    itemsFrom 1 (pieces text.toList) ++ (itemsFrom 1 (pieces more.toList)).map _
  rw [joined, pieces_newline _ closed, itemsFrom_append, flatMap_text_pieces, ← itemsFrom_down,
    below]
  -- The newline yields no item, but the line after it is the next one.
  rfl

theorem Item.token?_down (lines : Nat) (item : Item) :
    (item.down lines).token? = item.token?.map (Token.down lines) := by
  cases item <;> rfl

theorem Item.error?_down (lines : Nat) (item : Item) :
    (item.down lines).error? = item.error?.map (SyntaxError.down lines) := by
  cases item <;> rfl

/-- The tokens of two texts on lines of their own are those of the first, without its mark of
the end, and those of the second, further down; and so are the errors. -/
theorem scan_newline {text : String}
    (closed : ∀ piece ∈ pieces text.toList, piece.sort ≠ .unterminated) (more : String) :
    let lines := text.toList.count '\n' + 1
    (scan (text ++ "\n" ++ more)).tokens =
      (scan text).tokens.dropLast ++ (scan more).tokens.map (Token.down lines) ∧
    (scan (text ++ "\n" ++ more)).errors =
      (scan text).errors ++ (scan more).errors.map (SyntaxError.down lines) := by
  intro lines
  have items := items_newline closed more
  have last : Token.endOfInput (1 + (text ++ "\n" ++ more).toList.count '\n') =
      (Token.endOfInput (1 + more.toList.count '\n')).down lines := by
    simp [Token.endOfInput, Token.down, lines]
    omega
  rw [scan_eq_items, scan_eq_items text, scan_eq_items more, items, last]
  constructor
  · simp [Item.token?_down, List.map_filterMap, lines]
  · simp [Item.error?_down, List.map_filterMap, lines]

/-- **Scanning respects line boundaries.** If a text leaves no string open, a text on the next
line is read as if it stood alone, only further down: by the newlines of the first text and one
more. The tokens are those of the first text without its mark of the end, and then those of the
second; the errors are those of the first and then those of the second. -/
theorem scan_append_newline (text more : String)
    (closed : ∀ error ∈ (scan text).errors, error.message ≠ "Unterminated string.") :
    let lines := 1 + text.toList.count '\n'
    ∃ tokens, (scan text).tokens = tokens ++ [Token.endOfInput lines] ∧
      (scan (text ++ "\n" ++ more)).tokens = tokens ++ (scan more).tokens.map (Token.down lines) ∧
      (scan (text ++ "\n" ++ more)).errors =
        (scan text).errors ++ (scan more).errors.map (SyntaxError.down lines) := by
  intro lines
  obtain ⟨tokens, errors⟩ := scan_newline (closed_of_messages closed) more
  have marked : (scan text).tokens =
      segmentTokens (pieces text.toList) ++ [Token.endOfInput lines] := scan_tokens_eq text
  rw [Nat.add_comm] at tokens errors
  refine ⟨segmentTokens (pieces text.toList), marked, ?_, errors⟩
  rw [tokens, marked, List.dropLast_concat]

/-- The first text may have other errors, strings over several lines, and a numeral or a comment
at its end that could go on if the newline were not there. -/
theorem scan_append_newline_numeral :
    (∀ error ∈ (scan "@ \"a\nb\" 1.").errors, error.message ≠ "Unterminated string.") ∧
    ∃ tokens, (scan "@ \"a\nb\" 1.").tokens = tokens ++ [Token.endOfInput 2] ∧
      (scan ("@ \"a\nb\" 1." ++ "\n" ++ "5 // c\n#")).tokens =
        tokens ++ (scan "5 // c\n#").tokens.map (Token.down 2) ∧
      (scan ("@ \"a\nb\" 1." ++ "\n" ++ "5 // c\n#")).errors =
        (scan "@ \"a\nb\" 1.").errors ++ (scan "5 // c\n#").errors.map (SyntaxError.down 2) :=
  have closed : ∀ error ∈ (scan "@ \"a\nb\" 1.").errors,
      error.message ≠ "Unterminated string." := by decide +kernel
  ⟨closed, scan_append_newline "@ \"a\nb\" 1." "5 // c\n#" closed⟩

end BlockScript
