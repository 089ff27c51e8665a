import BlockScript.Number.Parse
import BlockScript.Source.Character
import BlockScript.Token.Basic

/-!
# Pieces of a text

Every text falls into pieces: tokens, the blanks and comments between them, and
stretches that belong to no token. `cut` takes one piece off the front, always the
longest one that starts there, and `pieces` goes on to the end of the text. Nothing
is lost on the way: the pieces spell the text again (`flatMap_text_pieces`), and no
piece is empty (`text_ne_nil_of_mem_pieces`).
-/
namespace BlockScript

inductive PieceSort where
  /-- A single space, tab, carriage return or newline. -/
  | blank
  /-- Two slashes and the rest of the line. -/
  | comment
  | token (kind : TokenKind) (literal : Option Literal)
  /-- A numeral that stands for no number. -/
  | malformed
  /-- A single character with which no token begins. -/
  | stray
  /-- A quote that is never closed, with all that follows it. -/
  | unterminated
  deriving DecidableEq

/-- A stretch of text of one sort. -/
structure Piece where
  sort : PieceSort
  text : List Char
  deriving DecidableEq

namespace Piece

/-- A string, whose opening quote has been read. It may run over several lines. -/
def cutString (rest : List Char) : Piece × List Char :=
  let body := rest.takeWhile (· ≠ '"')
  match rest.dropWhile (· ≠ '"') with
  | [] => (⟨.unterminated, '"' :: body⟩, [])
  | quote :: after =>
    (⟨.token .string (some (.string (String.ofList body))), '"' :: body ++ [quote]⟩, after)

/-- A numeral, which is a token if it stands for a number. -/
def ofNumeral (numeral : List Char) : Piece :=
  match Number.parse? numeral with
  | some value => ⟨.token .number (some (.number value)), numeral⟩
  | none => ⟨.malformed, numeral⟩

/-- A numeral whose first digit has been read. A point belongs to it only if a digit
follows. -/
def cutNumber (first : Char) (rest : List Char) : Piece × List Char :=
  let whole := first :: rest.takeWhile Character.isDigit
  match rest.dropWhile Character.isDigit with
  | point :: digit :: after =>
    if point = '.' ∧ Character.isDigit digit then
      (ofNumeral (whole ++ point :: digit :: after.takeWhile Character.isDigit),
        after.dropWhile Character.isDigit)
    else (ofNumeral whole, point :: digit :: after)
  | after => (ofNumeral whole, after)

/-- A word whose first letter has been read: a keyword if it is reserved as a whole,
and otherwise a name. -/
def cutWord (first : Char) (rest : List Char) : Piece × List Char :=
  let word := first :: rest.takeWhile Character.isWordPart
  let kind := match Keyword.ofSpelling? (String.ofList word) with
    | some keyword => .keyword keyword
    | none => .identifier
  (⟨.token kind none, word⟩, rest.dropWhile Character.isWordPart)

def cutSingle (first : Char) (rest : List Char) : Piece × List Char :=
  match Symbol.ofChar? first with
  | some symbol => (⟨.token (.symbol symbol) none, [first]⟩, rest)
  | none => (⟨.stray, [first]⟩, rest)

/-- A symbol, a comment or a stray character. Two characters that form a symbol
together are never read as two. -/
def cutSymbol (first : Char) (rest : List Char) : Piece × List Char :=
  match rest with
  | second :: after =>
    match Symbol.ofPair? first second with
    | some symbol => (⟨.token (.symbol symbol) none, [first, second]⟩, after)
    | none =>
      if first = '/' ∧ second = '/' then
        (⟨.comment, first :: rest.takeWhile (· ≠ '\n')⟩, rest.dropWhile (· ≠ '\n'))
      else cutSingle first rest
  | [] => cutSingle first rest

def cut (first : Char) (rest : List Char) : Piece × List Char :=
  if Character.isBlank first then (⟨.blank, [first]⟩, rest)
  else if first = '"' then cutString rest
  else if Character.isDigit first then cutNumber first rest
  else if Character.isWordStart first then cutWord first rest
  else cutSymbol first rest

/-! ### What a cut leaves -/

theorem cutString_text (rest : List Char) :
    (cutString rest).1.text ++ (cutString rest).2 = '"' :: rest := by
  have parts := List.takeWhile_append_dropWhile (p := (· ≠ '"')) (l := rest)
  unfold cutString
  split
  next closed =>
    rw [closed, List.append_nil] at parts
    simp only [List.append_nil, parts]
  next quote after closed =>
    rw [closed] at parts
    simp only [List.cons_append, List.append_assoc, List.nil_append, parts]

@[simp] theorem ofNumeral_text (numeral : List Char) : (ofNumeral numeral).text = numeral := by
  unfold ofNumeral
  split <;> rfl

theorem cutNumber_text (first : Char) (rest : List Char) :
    (cutNumber first rest).1.text ++ (cutNumber first rest).2 = first :: rest := by
  have parts := List.takeWhile_append_dropWhile (p := Character.isDigit) (l := rest)
  unfold cutNumber
  split
  next point digit after left =>
    rw [left] at parts
    split <;> simp [List.takeWhile_append_dropWhile, parts]
  next => simp

theorem cutWord_text (first : Char) (rest : List Char) :
    (cutWord first rest).1.text ++ (cutWord first rest).2 = first :: rest := by
  simp [cutWord, List.takeWhile_append_dropWhile]

theorem cutSingle_text (first : Char) (rest : List Char) :
    (cutSingle first rest).1.text ++ (cutSingle first rest).2 = first :: rest := by
  unfold cutSingle
  split <;> rfl

theorem cutSymbol_text (first : Char) (rest : List Char) :
    (cutSymbol first rest).1.text ++ (cutSymbol first rest).2 = first :: rest := by
  unfold cutSymbol
  split
  next second after =>
    split
    · rfl
    · split
      · simp only [List.cons_append, List.takeWhile_append_dropWhile]
      · exact cutSingle_text _ _
  · exact cutSingle_text _ _

/-- A cut only divides the text. -/
theorem cut_text (first : Char) (rest : List Char) :
    (cut first rest).1.text ++ (cut first rest).2 = first :: rest := by
  unfold cut
  split
  · rfl
  · split
    next quote => rw [quote]; exact cutString_text rest
    · split
      · exact cutNumber_text first rest
      · split
        · exact cutWord_text first rest
        · exact cutSymbol_text first rest

/-- A piece is never empty. -/
theorem cut_text_ne_nil (first : Char) (rest : List Char) : (cut first rest).1.text ≠ [] := by
  unfold cut cutString cutNumber cutWord cutSymbol cutSingle
  split
  · simp
  · split
    · split <;> simp
    · split
      · split
        · split <;> simp
        · simp
      · split
        · simp
        · split
          · split
            · simp
            · split
              · simp
              · split <;> simp
          · split <;> simp

/-- What a cut leaves is shorter than what it was given. -/
theorem length_cut (first : Char) (rest : List Char) :
    (cut first rest).2.length < (first :: rest).length := by
  have parts := congrArg List.length (cut_text first rest)
  have filled := List.length_pos_iff.mpr (cut_text_ne_nil first rest)
  rw [List.length_append] at parts
  omega

end Piece

/-- The pieces of a text, from its start to its end. -/
def pieces (text : List Char) : List Piece :=
  match text with
  | [] => []
  | first :: rest => (Piece.cut first rest).1 :: pieces (Piece.cut first rest).2
termination_by text.length
decreasing_by exact Piece.length_cut first rest

@[simp] theorem pieces_nil : pieces [] = [] := by
  rw [pieces]

theorem pieces_cons (first : Char) (rest : List Char) :
    pieces (first :: rest) = (Piece.cut first rest).1 :: pieces (Piece.cut first rest).2 := by
  rw [pieces]

/-- The pieces spell the text. -/
theorem flatMap_text_pieces (text : List Char) : (pieces text).flatMap Piece.text = text := by
  fun_induction pieces text with
  | case1 => rfl
  | case2 first rest ih => rw [List.flatMap_cons, ih, Piece.cut_text]

theorem text_ne_nil_of_mem_pieces {text : List Char} {piece : Piece}
    (member : piece ∈ pieces text) : piece.text ≠ [] := by
  fun_induction pieces text with
  | case1 => simp at member
  | case2 first rest ih =>
    rcases List.mem_cons.mp member with rfl | later
    · exact Piece.cut_text_ne_nil first rest
    · exact ih later

end BlockScript
