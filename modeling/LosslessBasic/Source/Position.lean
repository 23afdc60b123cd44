import LosslessBasic.Text.Ascii
import LosslessBasic.Text.Utf8
import LosslessBasic.Source.Location

/-!
# Positions in a source

A position is an offset together with the line and column that a reader would give it. CR LF, LF and
a lone CR break the line once each; a column counts characters, so continuation bytes of UTF-8 take
none. `Position.after` moves a position over bytes, one at a time.
-/

namespace LosslessBasic

/-- An offset into a source, with its line and column counted from one. -/
structure Position where
  /-- The number of bytes before the position. -/
  offset : Nat := 0
  /-- The line of the position. -/
  line : Nat := 1
  /-- The column of the position. -/
  column : Nat := 1
  deriving DecidableEq, Repr, Inhabited

namespace Position

/-- The position after the byte `c`, which is followed by `next`. A carriage return in front of a
line feed leaves the break to the line feed. -/
def step (p : Position) (c : UInt8) (next : Option UInt8) : Position :=
  if c == Bytes.lineFeed || (c == Bytes.carriageReturn && next != some Bytes.lineFeed) then
    { offset := p.offset + 1, line := p.line + 1, column := 1 }
  else if c == Bytes.carriageReturn || Utf8.isContinuation c then
    { p with offset := p.offset + 1 }
  else
    { p with offset := p.offset + 1, column := p.column + 1 }

/-- The position after `count` bytes of `rest`, the bytes from the position on; it stops at the end
of the source. -/
def after (p : Position) : Nat → Bytes → Position
  | 0, _ => p
  | _ + 1, [] => p
  | count + 1, c :: rest => (p.step c rest.head?).after count rest

/-- The location of a position in the file of the given number. -/
def locate (p : Position) (file : UInt32) : Location :=
  { file := file, line := p.line.toUInt32, column := p.column.toUInt32 }

end Position

end LosslessBasic
