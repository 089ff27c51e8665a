import BlockScript.Command.Arguments
import BlockScript.Command.Prompt
import BlockScript.Command.Script

/-!
# The command line

Runs a file, or the prompt if no file is named. The prompt takes the standard input line by line.
-/
namespace BlockScript

partial def readAll (stream : IO.FS.Stream) (read : ByteArray) : IO ByteArray := do
  let chunk ← stream.read 65536
  if chunk.isEmpty then return read
  readAll stream (read ++ chunk)

def readFile (path : String) : IO Command.Script.Content := do
  try
    return .ok (← IO.FS.readBinFile path)
  catch
    | .noFileOrDirectory .. => return .error .missing
    | error => return .error (.other (toString error))

/-- Writes what a command leaves behind and gives its status. -/
def deliver (outcome : Command.Outcome) : IO UInt32 := do
  (← IO.getStderr).putStr outcome.stderr
  let stdout ← IO.getStdout
  stdout.write outcome.stdout
  stdout.flush
  return outcome.status.toUInt32

end BlockScript

open BlockScript in
def main (arguments : List String) : IO UInt32 := do
  match Command.Arguments.read? arguments with
  | none =>
    IO.eprintln "Usage: [--print-ast] [--log-level LEVEL] [FILE]"
    return 2
  | some ⟨some path, echo⟩ => deliver (Command.Script.run path (← readFile path) echo)
  | some ⟨none, echo⟩ =>
    let input ← readAll (← IO.getStdin) .empty
    match Command.Prompt.run .plain input echo with
    | some outcome => deliver outcome
    | none => return 0
