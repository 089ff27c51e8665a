/-!
# Arguments of the command

`[--print-ast] [--log-level LEVEL] [FILE]`, in any order. Nothing is logged, so the level is read
and then not used.
-/
namespace BlockScript.Command

structure Arguments where
  /-- The file to run. There is none if the prompt is asked for. -/
  path : Option String
  /-- Whether the canonical form of a program is shown before its run. -/
  echo : Bool
  deriving DecidableEq, Repr

namespace Arguments

/-- A second file, an option that is not known or one without its level is not accepted. -/
def read? : List String → Option Arguments
  | [] => some ⟨none, false⟩
  | "--print-ast" :: rest => (read? rest).map ({ · with echo := true })
  | "--log-level" :: _ :: rest => read? rest
  | argument :: rest => do
    let others ← read? rest
    if argument.startsWith "--log-level=" then return others
    -- A single dash names a file.
    if argument.startsWith "-" && argument != "-" then none
    if others.path.isSome then none
    return { others with path := some argument }

end Arguments
end BlockScript.Command
