import BlockScript.Source.Cursor

/-!
# The tokens of a text

`scan` reads a whole text: its tokens, with the mark of the end after them, and its
lexical errors. It is one loop over the pieces; `scan_eq` says that the loop keeps
the items of the text in their order and adds only the mark at the end.
-/
namespace BlockScript

/-- The outcome of reading a text. The offending stretches are left out of the
tokens and reported among the errors instead. -/
structure Scan where
  tokens : List Token
  errors : List SyntaxError
  deriving DecidableEq

def Item.token? : Item → Option Token
  | .ok token => some token
  | .error _ => none

def Item.error? : Item → Option SyntaxError
  | .ok _ => none
  | .error error => some error

namespace Cursor

/-- Reads a text that begins on `line` to its end. The tokens and errors read before
are given latest first. -/
def scanOnto (tokens : List Token) (errors : List SyntaxError) (line : Nat) (text : List Char) :
    Scan :=
  match text with
  | [] => ⟨(Token.endOfInput line :: tokens).reverse, errors.reverse⟩
  | first :: rest =>
    let piece := (Piece.cut first rest).1
    let left := (Piece.cut first rest).2
    let after := line + piece.lines
    match piece.item? after with
    | some (.ok token) => scanOnto (token :: tokens) errors after left
    | some (.error error) => scanOnto tokens (error :: errors) after left
    | none => scanOnto tokens errors after left
termination_by text.length
decreasing_by all_goals exact Piece.length_cut first rest

def scan (cursor : Cursor) : Scan :=
  scanOnto [] [] cursor.line cursor.rest

theorem scanOnto_eq (tokens : List Token) (errors : List SyntaxError) (line : Nat)
    (text : List Char) :
    scanOnto tokens errors line text =
      ⟨tokens.reverse ++ (itemsFrom line (pieces text)).filterMap Item.token? ++
          [Token.endOfInput (line + text.count '\n')],
        errors.reverse ++ (itemsFrom line (pieces text)).filterMap Item.error?⟩ := by
  fun_induction scanOnto tokens errors line text with
  | case1 => simp [itemsFrom]
  | case2 tokens errors line first rest piece left after token found ih =>
    rw [ih, pieces_cons, Piece.count_newline_cut, ← Nat.add_assoc, itemsFrom, found]
    simp [List.filterMap_cons, Item.token?, Item.error?, left, after, piece]
  | case3 tokens errors line first rest piece left after error found ih =>
    rw [ih, pieces_cons, Piece.count_newline_cut, ← Nat.add_assoc, itemsFrom, found]
    simp [List.filterMap_cons, Item.token?, Item.error?, left, after, piece]
  | case4 tokens errors line first rest piece left after found ih =>
    rw [ih, pieces_cons, Piece.count_newline_cut, ← Nat.add_assoc, itemsFrom, found]

/-- The tokens of a text are the tokens among its items, then the mark of the end on
the last line; its errors are the errors among its items. -/
theorem scan_eq (cursor : Cursor) :
    cursor.scan =
      ⟨cursor.items.filterMap Item.token? ++
          [Token.endOfInput (cursor.line + cursor.rest.count '\n')],
        cursor.items.filterMap Item.error?⟩ := by
  simpa [scan, items] using scanOnto_eq [] [] cursor.line cursor.rest

end Cursor

def scan (text : String) : Scan :=
  (Cursor.start text).scan

end BlockScript
