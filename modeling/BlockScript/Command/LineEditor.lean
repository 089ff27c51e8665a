import BlockScript.Text.Lines

/-!
# Line editors

The prompt asks a line editor for its lines. How an editor makes lines of what is typed, or of
what comes through a pipe, is its own affair; the prompt only knows what it answers.
-/
namespace BlockScript.Command

/-- What a line editor answers when it is asked for a line. -/
inductive Reading where
  | line (text : String)
  /-- The line was given up while it was typed. -/
  | interrupted
  | endOfInput
  /-- An error of the editor, in the form that is meant for developers. -/
  | failed (shown : String)
  deriving DecidableEq, Repr

/-- A line editor: what it answers, call by call, when an input comes through a pipe. -/
structure LineEditor where
  readings : ByteArray → List Reading

namespace LineEditor

/-- An editor that knows no keys: it hands over every text. -/
def plain : LineEditor where
  readings input :=
    match String.fromUTF8? input with
    | some text => (Text.lines text).map .line ++ [.endOfInput]
    | none => [.failed "not valid UTF-8"]

end LineEditor
end BlockScript.Command
