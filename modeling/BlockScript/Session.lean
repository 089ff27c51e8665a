import BlockScript.Parse.Program
import BlockScript.Run.Execution
import BlockScript.Syntax.Text

/-!
# Sessions

A session runs one text after another on the same interpreter, so what one run defines
the next one finds. A text with any syntax error is reported and not run at all.
-/
namespace BlockScript

/-- What a run reports: everything that is wrong with the form of its text, or the
error that stopped it. -/
structure Report where
  syntaxErrors : List SyntaxError
  runtimeError : Option RuntimeError
  deriving DecidableEq

namespace Report

def hasSyntaxError (report : Report) : Bool :=
  !report.syntaxErrors.isEmpty

def hasRuntimeError (report : Report) : Bool :=
  report.runtimeError.isSome

def isOk (report : Report) : Bool :=
  !report.hasSyntaxError && !report.hasRuntimeError

def text (report : Report) : String :=
  let shown := report.syntaxErrors.map SyntaxError.text ++
    report.runtimeError.toList.map RuntimeError.text
  shown.foldl (fun written line => written ++ line ++ "\n") ""

end Report

/-- An interpreter that outlives the single run. -/
abbrev Session (W : Type) := Interpreter W

namespace Session

variable {W : Type}

def new (sink : W) : Session W :=
  Interpreter.new sink

variable [Writer W]

def execute (session : Session W) (program : Program) : Report × Session W :=
  match Interpreter.interpret program session with
  | (.ok _, session) => (⟨[], none⟩, session)
  | (.error error, session) => (⟨[], some error⟩, session)

/-- Runs a text, if it is a program. -/
def run (session : Session W) (text : String) : Report × Session W :=
  let parsed := parse text
  if parsed.errors.isEmpty then session.execute parsed.program
  else (⟨parsed.errors, none⟩, session)

/-- Runs a text. If `echo` is set and the text is a program, its canonical form is given as
well. -/
def runEchoing (session : Session W) (echo : Bool) (text : String) :
    Report × String × Session W :=
  if echo then
    let parsed := parse text
    if parsed.errors.isEmpty then
      let (report, session) := session.execute parsed.program
      (report, Program.render parsed.program, session)
    else (⟨parsed.errors, none⟩, "", session)
  else
    let (report, session) := session.run text
    (report, "", session)

/-- Echoing changes neither the report nor the session. -/
theorem run_eq_runEchoing (session : Session W) (echo : Bool) (text : String) :
    session.run text =
      ((session.runEchoing echo text).1, (session.runEchoing echo text).2.2) := by
  cases echo with
  | false => rfl
  | true =>
    simp only [run, runEchoing, if_true]
    split <;> rfl

/-- A text that is not a program leaves the session as it was. -/
theorem run_of_errors {session : Session W} {text : String} (wrong : (parse text).errors ≠ []) :
    session.run text = (⟨(parse text).errors, none⟩, session) := by
  unfold run
  simp only
  split
  next empty => exact absurd (List.isEmpty_iff.mp empty) wrong
  next => rfl

end Session
end BlockScript
