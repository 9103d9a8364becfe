/-!
# Sinks

Where text is written to. A sink may have a limit in bytes: it keeps what is within the limit, and a
write that goes beyond it fails.
-/

namespace Script

structure Sink where
  written : ByteArray
  limit : Option Nat
  deriving Inhabited

namespace Sink

def empty (limit : Option Nat) : Sink := ⟨.empty, limit⟩

/-- The reason a write gives when it fails. -/
def full : String := "sink full"

/-- Writes a text, as much of it as the sink takes, and says whether that was all of it. -/
def write (s : Sink) (text : String) : Sink × Bool :=
  let written := s.written ++ text.toUTF8
  match s.limit with
  | none => (⟨written, none⟩, true)
  | some limit =>
    if written.size ≤ limit then (⟨written, some limit⟩, true)
    else (⟨written.extract 0 limit, some limit⟩, false)

/-- Writes texts one after the other, up to the first that fails. -/
def writeAll (s : Sink) : List String → Sink × Bool
  | [] => (s, true)
  | text :: texts =>
    match s.write text with
    | (s, true) => s.writeAll texts
    | (s, false) => (s, false)

end Sink

end Script
