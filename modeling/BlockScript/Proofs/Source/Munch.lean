import BlockScript.Proofs.Source.Lexeme
import BlockScript.Source.Cursor

/-!
# The longest lexeme

A text may begin with many lexemes, one longer than the other. The longest of them is the token
that is read, whatever comes behind it.

## Main results

`IsLongestLexeme.cut_eq`: the longest lexeme at the front of a text is what is cut off it.
`Piece.cut_congr`: so a text that begins with no other lexemes has the same piece at its front.
`Cursor.next?_longest`: what the next item behind a cursor is, for every cursor: the token of the
longest lexeme behind the blanks and comments there, or an error if there is no lexeme.

## Proof strategy

A token that is cut off is a lexeme (`Piece.cut_lawful`). By cases on the forms of lexemes it is
no shorter than any other lexeme at the same place (`Lexeme.length_le_cut`). Both together decide
what is cut off, since a text is a lexeme in one way at most (`Lexeme.unique`).
-/

namespace BlockScript

/-- Whether a lexeme is the longest one with which a text begins. -/
structure IsLongestLexeme (lexeme text : List Char) : Prop where
  front : lexeme <+: text
  complete : IsLexeme lexeme
  longest : ∀ other, other <+: text → IsLexeme other → other.length ≤ lexeme.length

/-- A text is a lexeme of one kind at most, and stands for one value. -/
theorem Lexeme.unique {kind kind' : TokenKind} {literal literal' : Option Literal}
    {text : List Char} (lexeme : Lexeme kind literal text) (other : Lexeme kind' literal' text) :
    kind = kind' ∧ literal = literal' := by
  obtain ⟨first, more, rfl⟩ := List.exists_cons_of_ne_nil lexeme.ne_nil
  -- Both are what is cut off the text when it stands alone.
  have one := Piece.cut_lexeme lexeme kind.endsBefore_nil
  have two := Piece.cut_lexeme other kind'.endsBefore_nil
  have same := congrArg (fun result => result.1.sort) (one.symm.trans two)
  simpa using same

/-! ### No lexeme is longer than what is cut off -/

/-- A symbol is one character, or two to which nothing can be added. -/
theorem Symbol.spelling_cases (symbol : Symbol) :
    symbol.spelling.length = 1 ∨ ∀ rest, (TokenKind.symbol symbol).EndsBefore rest := by
  cases symbol <;> simp [spelling, TokenKind.EndsBefore]

theorem length_le_takeWhile {p : Char → Bool} {body : List Char} (inside : ∀ c ∈ body, p c = true)
    (rest : List Char) : body.length ≤ ((body ++ rest).takeWhile p).length := by
  rw [List.takeWhile_append_of_pos inside, List.length_append]
  exact Nat.le_add_right _ _

namespace Piece

theorem length_le_cutWord {first : Char} {body : List Char}
    (parts : ∀ c ∈ body, Character.isWordPart c = true) (rest : List Char) :
    (first :: body).length ≤ (cutWord first (body ++ rest)).1.text.length :=
  Nat.succ_le_succ (length_le_takeWhile parts rest)

theorem length_le_cutNumber {first : Char} {whole fraction : List Char}
    (digits : ∀ c ∈ whole ++ fraction, Character.isDigit c = true) (rest : List Char) :
    (Number.numeral (first :: whole) fraction).length ≤
      (cutNumber first (Number.numeral whole fraction ++ rest)).1.text.length := by
  obtain ⟨before, after⟩ := List.forall_mem_append.mp digits
  cases fraction with
  | nil =>
    -- A fraction may follow all the same, but the digits in front of it are taken first.
    have taken := length_le_takeWhile before rest
    simp only [Number.numeral, if_true, cutNumber, List.length_cons]
    split
    · split <;> simp <;> omega
    · simp only [ofNumeral_text, List.length_cons]
      omega
  | cons digit decimals =>
    obtain ⟨decimal, later⟩ := List.forall_mem_cons.mp after
    have taken := length_le_takeWhile later rest
    have filled (fraction : List Char) : digit :: fraction ≠ [] := List.cons_ne_nil _ _
    rw [Number.numeral, Number.numeral, if_neg (filled _), if_neg (filled _), List.append_assoc]
    simp only [List.cons_append, cutNumber_point before decimal, ofNumeral_text, Number.numeral,
      if_neg (filled _), List.length_cons, List.length_append]
    omega

end Piece

/-- What is cut off is no shorter than any lexeme at its place. -/
theorem Lexeme.length_le_cut {kind : TokenKind} {literal : Option Literal} {lexeme rest : List Char}
    {first : Char} (complete : Lexeme kind literal lexeme) (front : lexeme <+: first :: rest) :
    lexeme.length ≤ (Piece.cut first rest).1.text.length := by
  obtain ⟨c, more, rfl⟩ := List.exists_cons_of_ne_nil complete.ne_nil
  obtain ⟨rfl, tail, rfl⟩ := List.cons_prefix_cons.mp front
  by_cases apart : kind.EndsBefore tail
  -- If nothing behind the lexeme continues it, the lexeme is just what is cut off.
  · rw [Piece.cut_lexeme complete apart]
  -- Otherwise more is cut off, or at least as much.
  · generalize spelled : c :: more = text at complete
    cases complete with
    | symbol symbol =>
      rcases symbol.spelling_cases with single | closed
      · rw [single]
        exact List.length_pos_iff.mpr (Piece.cut_text_ne_nil _ _)
      · exact absurd (closed tail) apart
    | keyword word =>
      obtain ⟨first, parts, same, start, inside⟩ := word.spelling_eq_cons
      rw [same] at spelled ⊢
      obtain ⟨rfl, rfl⟩ := List.cons.inj spelled
      rw [Piece.cut_of_isWordStart start]
      exact Piece.length_le_cutWord inside tail
    | identifier start parts =>
      obtain ⟨rfl, rfl⟩ := List.cons.inj spelled
      rw [Piece.cut_of_isWordStart start]
      exact Piece.length_le_cutWord parts tail
    | string => exact absurd trivial apart
    | number form =>
      obtain ⟨first, whole, rfl, digit⟩ := Number.numeral_eq_cons form
      rw [Number.numeral_cons] at spelled
      obtain ⟨rfl, rfl⟩ := List.cons.inj spelled
      rw [Piece.cut_of_isDigit digit]
      exact Piece.length_le_cutNumber (List.forall_mem_of_forall_mem_cons form.digits) tail

/-! ### What is cut off where there is something to read -/

/-- A lexeme that begins with a quote has another one. -/
theorem Lexeme.mem_quote {kind : TokenKind} {literal : Option Literal} {rest : List Char}
    (lexeme : Lexeme kind literal ('"' :: rest)) : '"' ∈ rest := by
  rcases lexeme.head_cases with ⟨symbol, spelled⟩ | start | digit | ⟨-, closed⟩
  · cases symbol <;> simp [Symbol.spelling] at spelled
  · exact absurd start (by decide)
  · exact absurd digit (by decide)
  · exact closed

/-- Whether a text begins neither with a blank nor with a comment. -/
structure IsVisible (first : Char) (rest : List Char) : Prop where
  noBlank : Character.isBlank first = false
  noComment : first = '/' → rest.head? ≠ some '/'

namespace Piece

/-- What is cut off a text that begins neither with a blank nor with a comment, and what is then
left. -/
inductive Munch (text : List Char) : Piece → List Char → Prop where
  | token {kind : TokenKind} {literal : Option Literal} {lexeme rest : List Char}
      (spelled : lexeme ++ rest = text) (lexical : Lexeme kind literal lexeme)
      (longest : IsLongestLexeme lexeme text) : Munch text ⟨.token kind literal, lexeme⟩ rest
  | stray {c : Char} {rest : List Char} (spelled : c :: rest = text) (noQuote : c ≠ '"')
      (noLexeme : ∀ lexeme, lexeme <+: text → ¬IsLexeme lexeme) : Munch text ⟨.stray, [c]⟩ rest
  | unterminated {body : List Char} (spelled : '"' :: body = text)
      (noLexeme : ∀ lexeme, lexeme <+: text → ¬IsLexeme lexeme) :
      Munch text ⟨.unterminated, '"' :: body⟩ []

theorem munch_cut {first : Char} {rest : List Char} (visible : IsVisible first rest) :
    Munch (first :: rest) (cut first rest).1 (cut first rest).2 := by
  have lawful := cut_lawful first rest
  have parts := cut_text first rest
  generalize found : cut first rest = result at lawful parts ⊢
  obtain ⟨piece, left⟩ := result
  generalize behind : pieces left = after at lawful
  cases lawful with
  | blank blank =>
    obtain ⟨rfl, rfl⟩ := List.cons.inj parts
    rw [← isBlank_iff, visible.noBlank] at blank
    exact absurd blank (by decide)
  | comment =>
    obtain ⟨rfl, rfl⟩ := List.cons.inj parts
    exact absurd rfl (visible.noComment rfl)
  | token lexical =>
    refine .token parts lexical ⟨⟨left, parts⟩, ⟨_, _, lexical⟩, ?_⟩
    rintro other front ⟨kind, literal, complete⟩
    simpa only [found] using complete.length_le_cut front
  | stray outside foreign =>
    refine .stray parts ?_ ?_
    -- With a quote the shortest string begins, so a quote is not foreign to all lexemes.
    · rintro rfl
      exact foreign _ _ _ (.string List.not_mem_nil)
    · rintro other front ⟨kind, literal, complete⟩
      obtain ⟨c, more, rfl⟩ := List.exists_cons_of_ne_nil complete.ne_nil
      rw [← parts] at front
      obtain ⟨rfl, -⟩ := List.cons_prefix_cons.mp front
      exact foreign kind literal more complete
  | unterminated unclosed =>
    have last : left = [] := by
      rw [← flatMap_text_pieces left, behind]
      rfl
    subst last
    rw [List.append_nil] at parts
    refine .unterminated parts ?_
    rintro other front ⟨kind, literal, complete⟩
    obtain ⟨c, more, rfl⟩ := List.exists_cons_of_ne_nil complete.ne_nil
    rw [← parts] at front
    -- A lexeme at the quote would have the quote that is missing.
    obtain ⟨rfl, inside⟩ := List.cons_prefix_cons.mp front
    exact unclosed (inside.subset complete.mem_quote)

end Piece

/-- The longest lexeme at the front of a text is what is cut off it. -/
theorem IsLongestLexeme.cut_eq {kind : TokenKind} {literal : Option Literal} {first : Char}
    {rest lexeme after : List Char} (longest : IsLongestLexeme lexeme (first :: rest))
    (lexical : Lexeme kind literal lexeme) (spelled : lexeme ++ after = first :: rest)
    (visible : IsVisible first rest) :
    Piece.cut first rest = (⟨.token kind literal, lexeme⟩, after) := by
  have munch := Piece.munch_cut visible
  generalize Piece.cut first rest = result at munch ⊢
  obtain ⟨piece, left⟩ := result
  cases munch with
  | @token kind' literal' other _ parts complete maximal =>
    -- Neither of the two lexemes is longer than the other, and both begin the text.
    have least := longest.longest other maximal.front maximal.complete
    have most := maximal.longest lexeme longest.front longest.complete
    have same : lexeme.length = other.length := by omega
    obtain ⟨rfl, rfl⟩ := List.append_inj (spelled.trans parts.symm) same
    obtain ⟨rfl, rfl⟩ := lexical.unique complete
    rfl
  | stray _ _ noLexeme => exact absurd longest.complete (noLexeme _ longest.front)
  | unterminated _ noLexeme => exact absurd longest.complete (noLexeme _ longest.front)

namespace Piece

variable {first : Char} {rest body left : List Char}

private theorem cut_congr_of_visible (visible : IsVisible first rest)
    (visible' : IsVisible first (body ++ left)) (spelled : (cut first rest).1.text = first :: body)
    (closed : (cut first rest).1.sort ≠ .unterminated)
    (agree : ∀ lexeme, IsLexeme lexeme → lexeme <+: first :: (body ++ left) →
      lexeme <+: first :: rest) :
    cut first (body ++ left) = ((cut first rest).1, left) := by
  have munch := munch_cut visible
  generalize cut first rest = result at munch spelled closed ⊢
  obtain ⟨piece, behind⟩ := result
  cases munch with
  | token _ lexical longest =>
    obtain rfl : _ = first :: body := spelled
    have still : IsLongestLexeme (first :: body) (first :: (body ++ left)) :=
      ⟨⟨left, rfl⟩, longest.complete, fun other front complete =>
        longest.longest other (agree other complete front) complete⟩
    exact still.cut_eq lexical rfl visible'
  | stray _ noQuote noLexeme =>
    obtain ⟨rfl, rfl⟩ := List.cons.inj spelled
    have munch' := munch_cut visible'
    generalize cut _ ([] ++ left) = result at munch' ⊢
    obtain ⟨piece, after⟩ := result
    cases munch' with
    | token _ _ longest =>
      exact absurd longest.complete (noLexeme _ (agree _ longest.complete longest.front))
    | stray whole =>
      obtain ⟨rfl, rfl⟩ := List.cons.inj whole
      rfl
    | unterminated whole => exact absurd (List.cons.inj whole).1.symm noQuote
  | unterminated => exact absurd rfl closed

/-- What is cut off a text depends on the lexemes with which the text begins. The piece is still
the same in front of another text, if no lexeme begins there that did not begin the text before;
nor may there be a comment that was none before, or one that would go on. -/
theorem cut_congr (spelled : (cut first rest).1.text = first :: body)
    (closed : (cut first rest).1.sort ≠ .unterminated)
    (line : (cut first rest).1.sort = .comment → ∀ c, left.head? = some c → c = '\n')
    (slash : (body ++ left).head? = some '/' → rest.head? = some '/')
    (agree : ∀ lexeme, IsLexeme lexeme → lexeme <+: first :: (body ++ left) →
      lexeme <+: first :: rest) :
    cut first (body ++ left) = ((cut first rest).1, left) := by
  by_cases blank : Character.isBlank first = true
  · simp only [cut_of_isBlank blank] at spelled ⊢
    obtain ⟨-, rfl⟩ := List.cons.inj spelled
    rfl
  · by_cases slashes : first = '/' ∧ rest.head? = some '/'
    · obtain ⟨rfl, next⟩ := slashes
      obtain ⟨comment, rfl⟩ := List.head?_eq_some_iff.mp next
      rw [cut_slashes] at spelled line ⊢
      obtain ⟨-, rfl⟩ := List.cons.inj spelled
      exact cut_slashes_append (not_mem_takeWhile_ne '\n' comment) (line rfl)
    · have visible : IsVisible first rest :=
        ⟨by simpa using blank, fun isSlash next => slashes ⟨isSlash, next⟩⟩
      have visible' : IsVisible first (body ++ left) :=
        ⟨visible.noBlank, fun isSlash next => visible.noComment isSlash (slash next)⟩
      exact cut_congr_of_visible visible visible' spelled closed agree

end Piece

/-! ### The next item -/

namespace Cursor

/-- The place behind the blanks and comments with which a text begins, if the text begins on
`line`. A comment is two slashes and the rest of their line. -/
def skipFrom (line : Nat) (text : List Char) : Cursor :=
  match text with
  | [] => ⟨[], line⟩
  | first :: rest =>
    if first = '/' ∧ rest.head? = some '/' then skipFrom line (rest.dropWhile (· ≠ '\n'))
    else if first = '\n' then skipFrom (line + 1) rest
    else if Character.isBlank first then skipFrom line rest
    else ⟨first :: rest, line⟩
termination_by text.length
decreasing_by
  · exact Nat.lt_succ_of_le (List.length_dropWhile_le _ _)
  · exact Nat.lt_succ_self _
  · exact Nat.lt_succ_self _

/-- The place behind the blanks and comments that follow a cursor. -/
def skip (cursor : Cursor) : Cursor :=
  skipFrom cursor.line cursor.rest

theorem isVisible_skipFrom {line : Nat} {text : List Char} {first : Char} {rest : List Char}
    (left : (skipFrom line text).rest = first :: rest) : IsVisible first rest := by
  fun_induction skipFrom line text with
  | case1 => simp at left
  | case2 _ _ _ _ ih | case3 _ _ _ ih | case4 _ _ _ _ _ _ ih => exact ih left
  | case5 line c more noComment noNewline noBlank =>
    obtain ⟨rfl, rfl⟩ := List.cons.inj left
    exact ⟨by simpa using noBlank, fun slash next => noComment ⟨slash, next⟩⟩

theorem nextItem?_blank {c : Char} (blank : Character.isBlank c = true) (rest : List Char)
    (line : Nat) : nextItem? (c :: rest) line = nextItem? rest (line + [c].count '\n') := by
  rw [nextItem?, Piece.cut_of_isBlank blank]
  rfl

theorem nextItem?_comment (rest : List Char) (line : Nat) :
    nextItem? ('/' :: '/' :: rest) line = nextItem? (rest.dropWhile (· ≠ '\n')) line := by
  have oneLine : '\n' ∉ '/' :: '/' :: rest.takeWhile (· ≠ '\n') := by
    simp only [List.mem_cons, not_or]
    exact ⟨by decide, by decide, not_mem_takeWhile_ne '\n' rest⟩
  rw [nextItem?, Piece.cut_slashes]
  simp only [Piece.item?, Piece.lines, List.count_eq_zero_of_not_mem oneLine, Nat.add_zero]

/-- Blanks and comments yield nothing. -/
theorem nextItem?_skipFrom (line : Nat) (text : List Char) :
    nextItem? (skipFrom line text).rest (skipFrom line text).line = nextItem? text line := by
  fun_induction skipFrom line text with
  | case1 => rfl
  | case2 line first rest slashes ih =>
    obtain ⟨rfl, next⟩ := slashes
    obtain ⟨body, rfl⟩ := List.head?_eq_some_iff.mp next
    rw [ih, nextItem?_comment]
    rfl
  | case3 line rest noComment ih =>
    rw [ih, nextItem?_blank (by decide)]
    rfl
  | case4 line first rest noComment noNewline blank ih =>
    have sameLine : '\n' ∉ [first] := by simpa using Ne.symm noNewline
    rw [ih, nextItem?_blank blank, List.count_eq_zero_of_not_mem sameLine]
    rfl
  | case5 => rfl

/-- **Maximal munch.** Let `here` be the place behind the blanks and comments that follow a
cursor. If the text there begins with lexemes, the next item is a token: the longest of them, with
the kind and the value of that lexeme, and reading goes on right behind it. If the text begins
with no lexeme, the next item is an error, and reading goes on behind one character, or at the end
of the text if that character is a quote. At the end of the text there is no next item. -/
theorem next?_longest (cursor : Cursor) :
    let here := cursor.skip
    (∃ kind literal lexeme rest,
      here.rest = lexeme ++ rest ∧ IsLongestLexeme lexeme here.rest ∧ Lexeme kind literal lexeme ∧
      let line := here.line + lexeme.count '\n'
      cursor.next? = some (.ok ⟨kind, String.ofList lexeme, literal, line⟩, ⟨rest, line⟩)) ∨
    (∃ first rest,
      here.rest = first :: rest ∧ (∀ lexeme, lexeme <+: here.rest → ¬IsLexeme lexeme) ∧
      let last := here.line + rest.count '\n'
      cursor.next? = some (
        if first = '"' then (.error (.onLine last "Unterminated string."), ⟨[], last⟩)
        else (.error (.onLine here.line "Unexpected character."), ⟨rest, here.line⟩))) ∨
    (here.rest = [] ∧ cursor.next? = none) := by
  intro here
  have next : cursor.next? = nextItem? here.rest here.line :=
    (nextItem?_skipFrom cursor.line cursor.rest).symm
  rw [next]
  cases left : here.rest with
  | nil =>
    right; right
    exact ⟨rfl, by rw [nextItem?]⟩
  | cons first rest =>
    have visible : IsVisible first rest := isVisible_skipFrom left
    have munch := Piece.munch_cut visible
    rw [nextItem?]
    generalize Piece.cut first rest = result at munch ⊢
    obtain ⟨piece, behind⟩ := result
    dsimp only at munch ⊢
    cases munch with
    | token spelled lexical longest =>
      left
      exact ⟨_, _, _, _, spelled.symm, longest, lexical, rfl⟩
    | @stray c _ spelled noQuote noLexeme =>
      obtain ⟨rfl, rfl⟩ := List.cons.inj spelled
      right; left
      refine ⟨c, behind, rfl, noLexeme, ?_⟩
      -- A newline is a blank, so the error is on the line where the reading goes on.
      have sameLine : '\n' ∉ [c] := by
        rw [List.mem_singleton]
        rintro rfl
        exact absurd visible.noBlank (by decide)
      simp only [Piece.item?, Piece.lines, List.count_eq_zero_of_not_mem sameLine, if_neg noQuote]
      rfl
    | unterminated spelled noLexeme =>
      obtain ⟨rfl, rfl⟩ := List.cons.inj spelled
      right; left
      refine ⟨'"', _, rfl, noLexeme, ?_⟩
      simp only [Piece.item?, Piece.lines, if_true, List.count_cons_of_ne (by decide : '"' ≠ '\n')]
      rfl

-- A point belongs to a numeral once, and only in front of a digit.
example : (Cursor.start " // 1\n1.5.2").next? =
    some (.ok ⟨.number, "1.5", some (.number 1.5), 2⟩, ⟨['.', '2'], 2⟩) := by
  decide +kernel

end Cursor
end BlockScript
