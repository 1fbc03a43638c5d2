/-! Places in a source text: a file and a range of bytes. -/

namespace IntervalStack

structure Span where
  file : UInt16
  start : UInt32
  stop : UInt32
deriving DecidableEq, Inhabited

namespace Span

def none : Span := ⟨0, 0, 0⟩

def isNone (s : Span) : Bool := s.start = 0 && s.stop = 0

end Span
end IntervalStack
