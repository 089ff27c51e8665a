/-!
# Lines

A line ends at a newline, which does not belong to it; neither does a carriage return
right before the newline. What follows the last newline is a line too, unless it is
empty.
-/
namespace BlockScript.Text

def stretches (text : String) : List String :=
  (text.toList.splitOn '\n').map String.ofList

/-- A text without the carriage return at its end, if there is one. -/
def withoutReturn (text : String) : String :=
  if text.toList.getLast? = some '\r' then String.ofList text.toList.dropLast else text

/-- The lines that stretches stand for: all but the last end at a newline. -/
def linesOf (stretches : List String) : List String :=
  stretches.dropLast.map withoutReturn ++ stretches.getLast?.toList.filter (· ≠ "")

def lines (text : String) : List String :=
  linesOf (stretches text)

end BlockScript.Text
