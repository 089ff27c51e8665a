/-!
# Outcomes of a command

What running a command leaves behind: the bytes on its two output streams and its exit
status.
-/
namespace BlockScript.Command

/-- The streams and the exit status of a command that has ended. -/
structure Outcome where
  stdout : ByteArray
  stderr : String
  status : UInt8

inductive Status where
  | success
  | dataError
  | softwareError
  | inputOutputError
  deriving DecidableEq, Repr

def Status.code : Status → UInt8
  | success => 0
  | dataError => 65
  | softwareError => 70
  | inputOutputError => 74

end BlockScript.Command
