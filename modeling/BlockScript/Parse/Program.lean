import BlockScript.Parse.Statement
import BlockScript.Source.Scan

/-!
# Parsing programs

A parse is a fold of `State.step` over the tokens before the mark of the end. At the
mark, whatever is still being read is spoiled, and so is every block still open, the
innermost first. Declarations that are spoiled are left out of the program and
described among the errors.
-/
namespace BlockScript
namespace Parse

/-- The program that a list of tokens is, as far as it could be read, and what is wrong
with the rest. -/
structure Result where
  program : Program
  errors : List Error

/-- The mark at which parsing ends: the first one among the tokens, or else one on the
line of the last token. -/
def endMark (tokens : List Token) : Token :=
  match tokens.find? Token.isEnd with
  | some mark => mark
  | none => Token.endOfInput ((tokens.getLast?.map Token.line).getD 1)

namespace State

/-- What has been read when the text ends. -/
def atEnd (state : State) (mark : Token) : State :=
  match state.mode with
  | .declaration => state
  | .recovering => state
  | .closed statement => state.settle false statement state.contexts
  -- Anything else is incomplete, and the mark completes nothing.
  | _ => state.step mark

def finish (state : State) (mark : Token) : Result :=
  let last := state.atEnd mark
  let unclosed := (last.contexts.filter Context.isBlock).map
    (fun _ => (⟨.missing .braceAfterBlock, mark⟩ : Error))
  ⟨last.program.reverse, last.errors.reverse ++ unclosed⟩

end State

def ofTokens (tokens : List Token) : Result :=
  ((tokens.takeWhile (fun token => !token.isEnd)).foldl State.step State.initial).finish
    (endMark tokens)

end Parse

/-- A text as a program, and everything that is wrong with its form. -/
structure Parsed where
  program : Program
  errors : List SyntaxError

/-- Parses a text. Its lexical errors come before the errors of its grammar. -/
def parse (text : String) : Parsed :=
  let scanned := scan text
  let result := Parse.ofTokens scanned.tokens
  ⟨result.program, scanned.errors ++ result.errors.map Parse.Error.report⟩

end BlockScript
