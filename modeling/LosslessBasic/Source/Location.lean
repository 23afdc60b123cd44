/-!
# Locations and spans

Tokens, tree nodes and diagnostics say where they stand in 32-bit words: a byte span, and a location
of file number, line and column. Sums of these words wrap.
-/

namespace LosslessBasic

/-- A place that a reader of a diagnostic can look up. Zero stands for "unknown" in each field;
lines and columns count from one. -/
structure Location where
  /-- The number of the file in its registry. -/
  file : UInt32 := 0
  /-- The line within the file. -/
  line : UInt32 := 0
  /-- The column within the line. -/
  column : UInt32 := 0
  deriving DecidableEq, Repr, Inhabited

/-- A range of bytes. -/
structure Span where
  /-- The offset of the first byte. -/
  offset : UInt32 := 0
  /-- The number of bytes. -/
  length : UInt32 := 0
  deriving DecidableEq, Repr, Inhabited

namespace Span

/-- The offset just past the last byte. -/
def stop (s : Span) : UInt32 := s.offset + s.length

/-- Whether the byte at `offset` lies in the span. -/
def contains (s : Span) (offset : UInt32) : Bool := s.offset ≤ offset && offset < s.stop

end Span

end LosslessBasic
