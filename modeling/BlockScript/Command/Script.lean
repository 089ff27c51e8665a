import BlockScript.Command.Outcome
import BlockScript.Session

/-!
# Running a file

A file is run as one text in a session of its own. The exit status tells a text that is
no program from one that was stopped; a file that cannot be read is not run.
-/
namespace BlockScript.Command.Script

/-- Why a file cannot be read. -/
inductive Unreadable where
  | notUtf8
  | missing
  | other (reason : String)
  deriving DecidableEq, Repr

def Unreadable.reason : Unreadable → String
  | notUtf8 => "stream did not contain valid UTF-8"
  | missing => "No such file or directory (os error 2)"
  | other reason => reason

/-- The content of a file: its bytes, or why there are none. -/
abbrev Content := Except Unreadable ByteArray

def decode (content : Content) : Except Unreadable String :=
  match content with
  | .error reason => .error reason
  | .ok bytes =>
    match String.fromUTF8? bytes with
    | some text => .ok text
    | none => .error .notUtf8

/-- The status that a report stands for. A text that is no program counts first. -/
def status (report : Report) : Status :=
  if report.hasSyntaxError then .dataError
  else if report.hasRuntimeError then .softwareError
  else .success

/-- Runs a text. If `echo` is set, its canonical form goes to the error stream first. -/
def runText (text : String) (echo : Bool) : Outcome :=
  let (report, canonical, session) := (Session.new Sink.unlimited).runEchoing echo text
  ⟨session.sink.written, canonical ++ report.text, (status report).code⟩

def run (path : String) (content : Content) (echo : Bool) : Outcome :=
  match decode content with
  | .ok text => runText text echo
  | .error unreadable =>
    ⟨.empty, "Could not read " ++ path ++ ": " ++ unreadable.reason ++ "\n",
      Status.inputOutputError.code⟩

end BlockScript.Command.Script
