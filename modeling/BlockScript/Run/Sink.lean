/-!
# Output

Printed text goes to a writer, which may take it or fail for a reason of its own. A sink is a
writer that keeps what is written. It may have room for a limited number of bytes: what fits is
kept, and a write that does not fit is refused.
-/
namespace BlockScript

/-- Something that text can be written to. What a write does to it, and whether the write fails,
depends on what has been written before. -/
class Writer (W : Type) where
  /-- Writes the bytes of a line, in one piece or in several. A write that fails says why; what it
  has done by then stays done. -/
  write : W → ByteArray → Except String Unit × W

inductive Refusal where
  | brokenPipe
  | full
  deriving DecidableEq, Repr

def Refusal.reason : Refusal → String
  | brokenPipe => "broken pipe"
  | full => "failed to write whole buffer"

/-- The bytes written so far, and for how many more there is room. A sink without a
limit has no `room`. -/
structure Sink where
  written : ByteArray
  room : Option Nat
  refusal : Refusal

namespace Sink

/-- An empty sink that takes everything. -/
def unlimited : Sink :=
  ⟨.empty, none, .brokenPipe⟩

def limited (room : Nat) (refusal : Refusal) : Sink :=
  ⟨.empty, some room, refusal⟩

/-- Writes bytes, as many as there is room for, and fails if that is not all of them. -/
def write (sink : Sink) (bytes : ByteArray) : Except String Unit × Sink :=
  match sink.room with
  | none => (.ok (), { sink with written := sink.written ++ bytes })
  | some room =>
    if bytes.size ≤ room then
      (.ok (), { sink with written := sink.written ++ bytes, room := some (room - bytes.size) })
    else
      (.error sink.refusal.reason,
        { sink with written := sink.written ++ bytes.extract 0 room, room := some 0 })

instance : Writer Sink := ⟨write⟩

end Sink
end BlockScript
