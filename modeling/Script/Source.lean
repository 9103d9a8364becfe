/-!
# Places in a source text

A position is counted twice: in bytes of UTF-8 from the start of the file, and in lines from one. Both
counts are exact. Counters of 32 bits have the same as long as a text is not too long for them.
-/

namespace Script

structure Position where
  offset : Nat
  line : Nat
  file : String
  deriving DecidableEq, Inhabited

namespace Position

/-- The position of what was never given one. -/
def unknown : Position := ⟨0, 0, "<null>"⟩

def start (file : String) : Position := ⟨0, 1, file⟩

/-- The position behind the characters `cs`. -/
def advance (p : Position) (cs : List Char) : Position where
  offset := cs.foldl (fun n c => n + c.utf8Size) p.offset
  line := p.line + cs.count '\n'
  file := p.file

end Position

structure Span where
  start : Position
  stop : Position
  deriving DecidableEq, Inhabited

end Script
