import LosslessBasic.Source.Position

/-!
# Reading a source

A cursor stands at a position of a source. It looks ahead without moving, moves forward over bytes,
and goes back to positions it has been at.
-/

namespace LosslessBasic

/-- A source and the position reached in it. -/
structure Cursor where
  /-- The bytes of the whole source. -/
  source : Bytes
  /-- The number of the file the source belongs to. -/
  file : UInt32 := 0
  /-- The position reached. -/
  position : Position := {}

namespace Cursor

/-- The bytes from the cursor on. -/
def rest (c : Cursor) : Bytes := c.source.drop c.position.offset

/-- The number of bytes from the cursor on. -/
def remaining (c : Cursor) : Nat := c.source.length - c.position.offset

/-- Whether the cursor stands at the end of the source. -/
def isAtEnd (c : Cursor) : Bool := c.source.length ≤ c.position.offset

/-- The byte `ahead` places past the cursor, or zero past the end. The places are added to the
offset in a word of 64 bits, so that a great number of them leads back to the bytes before the
cursor. -/
def peek (c : Cursor) (ahead : Nat) : UInt8 :=
  Bytes.front (c.source.drop ((c.position.offset + ahead) % UInt64.size))

/-- At most `count` bytes from the cursor on. -/
def peekText (c : Cursor) (count : Nat) : Bytes := c.rest.take count

/-- Whether the source goes on with `word`, up to the case of letters. -/
def startsWithIgnoringCase (c : Cursor) (word : Bytes) : Bool :=
  Ascii.startsWithIgnoringCase c.rest word

/-- The width of the line break in front of `rest`: two for CR LF, one for LF or a lone CR, zero
when there is none. -/
def lineBreakWidth : Bytes → Nat
  | [] => 0
  | a :: rest =>
    if a == Bytes.carriageReturn then
      if rest.head? == some Bytes.lineFeed then 2 else 1
    else if a == Bytes.lineFeed then 1
    else 0

/-- The width of the line break at the cursor. -/
def newlineLength (c : Cursor) : Nat := lineBreakWidth c.rest

/-- The offset of the first line-break byte from the cursor on, or the end of the source. -/
def endOfLine (c : Cursor) : Nat :=
  c.position.offset + (c.rest.takeWhile fun b => !Ascii.isLineBreak b).length

/-- The cursor moved over `count` bytes, or to the end of the source. -/
def advance (c : Cursor) (count : Nat) : Cursor :=
  { c with position := c.position.after count c.rest }

/-- The bytes from the cursor on that are of a class, and the cursor behind them. -/
def advanceWhile (c : Cursor) (inClass : UInt8 → Bool) : Bytes × Cursor :=
  let taken := c.rest.takeWhile inClass
  (taken, c.advance taken.length)

/-- The cursor at a position it has been at. -/
def reset (c : Cursor) (mark : Position) : Cursor := { c with position := mark }

/-- The cursor at the beginning of the source. -/
def resetToStart (c : Cursor) : Cursor := c.reset {}

/-- The bytes between the offset `start` and the cursor. An offset behind the cursor gives the rest
of the source, one outside the source gives nothing at all. -/
def sliceFrom (c : Cursor) (start : Nat) : Option Bytes :=
  if c.source.length < start then none
  else if start ≤ c.position.offset then
    some ((c.source.drop start).take (c.position.offset - start))
  else some (c.source.drop start)

end Cursor

end LosslessBasic
