import BlockScript.Source.Piece
import BlockScript.SyntaxError

/-!
# Reading a text token by token

A cursor stands between two pieces of a text and knows its line. Lines are counted
from one, a new one after each newline; a token or an error is on the line on which
its text ends. `next?` skips blanks and comments up to the next thing worth telling,
and `items` lists all of them at once.
-/
namespace BlockScript

/-- What can be wrong with a text before its tokens are put together. -/
inductive LexicalFault where
  | unexpectedCharacter
  | invalidNumber
  | unterminatedString
  deriving DecidableEq, Repr

def LexicalFault.message : LexicalFault → String
  | unexpectedCharacter => "Unexpected character."
  | invalidNumber => "Invalid number literal."
  | unterminatedString => "Unterminated string."

/-- What reading a text yields: a token, or an error in place of one. -/
abbrev Item := Except SyntaxError Token

namespace Piece

/-- The number of lines that end within the piece. -/
def lines (piece : Piece) : Nat :=
  piece.text.count '\n'

/-- What a piece that ends on `line` yields. Blanks and comments yield nothing. -/
def item? (piece : Piece) (line : Nat) : Option Item :=
  match piece.sort with
  | .blank => none
  | .comment => none
  | .token kind literal => some (.ok ⟨kind, String.ofList piece.text, literal, line⟩)
  | .malformed => some (.error (.onLine line LexicalFault.invalidNumber.message))
  | .stray => some (.error (.onLine line LexicalFault.unexpectedCharacter.message))
  | .unterminated => some (.error (.onLine line LexicalFault.unterminatedString.message))

/-- The newlines of a text are those of its first piece and those after it. -/
theorem count_newline_cut (first : Char) (rest : List Char) :
    (first :: rest).count '\n' =
      (cut first rest).1.lines + (cut first rest).2.count '\n' := by
  rw [lines, ← List.count_append, cut_text]

end Piece

/-- What pieces yield that begin on `line`, in order. -/
def itemsFrom (line : Nat) : List Piece → List Item
  | [] => []
  | piece :: rest =>
    let after := line + piece.lines
    match piece.item? after with
    | some item => item :: itemsFrom after rest
    | none => itemsFrom after rest

/-- A place in a text: what follows it, and its line. -/
structure Cursor where
  rest : List Char
  line : Nat
  deriving DecidableEq

namespace Cursor

def start (text : String) : Cursor :=
  ⟨text.toList, 1⟩

/-- The next item of a text that begins on `line`, and the place after it. There is
none if only blanks and comments are left. -/
def nextItem? (text : List Char) (line : Nat) : Option (Item × Cursor) :=
  match text with
  | [] => none
  | first :: rest =>
    let piece := (Piece.cut first rest).1
    let left := (Piece.cut first rest).2
    let after := line + piece.lines
    match piece.item? after with
    | some item => some (item, ⟨left, after⟩)
    | none => nextItem? left after
termination_by text.length
decreasing_by exact Piece.length_cut first rest

/-- The next item, and the cursor after it. -/
def next? (cursor : Cursor) : Option (Item × Cursor) :=
  nextItem? cursor.rest cursor.line

def items (cursor : Cursor) : List Item :=
  itemsFrom cursor.line (pieces cursor.rest)

end Cursor
end BlockScript
