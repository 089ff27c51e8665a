import BlockScript.Command.LineEditor
import BlockScript.Command.Outcome
import BlockScript.Session
import BlockScript.Text.Blank

/-!
# The prompt

At the prompt every line is a run of its own, and all of them share one session. The lines come
from a line editor, which is asked for one after the other; blank lines are skipped. The end of
the input ends the prompt, and so does an error of the editor. Either way the prompt itself
succeeds, whatever became of the lines.
-/
namespace BlockScript.Command

/-- The prompt between two lines. -/
structure Prompt where
  session : Session Sink
  /-- What has gone to the error stream. -/
  stderr : String

namespace Prompt

def start : Prompt :=
  ⟨Session.new .unlimited, ""⟩

/-- Runs one line, if it is not blank. If `echo` is set, its canonical form goes to the error
stream first. -/
def runLine (prompt : Prompt) (echo : Bool) (line : String) : Prompt :=
  if Text.isBlank line then prompt
  else
    let (report, canonical, session) := prompt.session.runEchoing echo line
    ⟨session, prompt.stderr ++ canonical ++ report.text⟩

/-- Puts a notice on the output stream. -/
def notify (prompt : Prompt) (notice : String) : Prompt :=
  let (_, sink) := prompt.session.sink.write (notice ++ "\n").toUTF8
  { prompt with session := { prompt.session with sink } }

/-- Leaves the prompt with a last notice. -/
def close (prompt : Prompt) (notice : String) : Outcome :=
  ⟨(prompt.notify notice).session.sink.written, prompt.stderr, Status.success.code⟩

/-- Takes one reading after the other, up to the one that ends the prompt. There is no outcome
for as long as the prompt waits for more. -/
def runReadings (prompt : Prompt) (echo : Bool) : List Reading → Option Outcome
  | [] => none
  | .line text :: rest => runReadings (prompt.runLine echo text) echo rest
  | .interrupted :: rest => runReadings (prompt.notify "CTRL-C") echo rest
  | .endOfInput :: _ => some (prompt.close "CTRL-D")
  | .failed shown :: _ => some (prompt.close ("Error: " ++ shown))

/-- Runs a whole input, as the editor hands it over. -/
def run (editor : LineEditor) (input : ByteArray) (echo : Bool) : Option Outcome :=
  start.runReadings echo (editor.readings input)

end Prompt
end BlockScript.Command
