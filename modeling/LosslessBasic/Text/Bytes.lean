/-!
# Byte strings

Program text, token text, messages and printed output are strings of bytes, because a source file
may hold bytes that are no valid text. A byte string is a list, so that readers of bytes are
recursions on the list.
-/

namespace LosslessBasic

/-- A string of bytes. -/
abbrev Bytes := List UInt8

namespace Bytes

/-- The bytes of the UTF-8 form of `s`. -/
def ofString (s : String) : Bytes := s.toUTF8.data.toList

/-- The byte of an ASCII character. -/
def byte (c : Char) : UInt8 := c.toNat.toUInt8

/-- The line feed byte. -/
def lineFeed : UInt8 := 0x0A

/-- The carriage return byte. -/
def carriageReturn : UInt8 := 0x0D

/-- The tab byte. -/
def tab : UInt8 := 0x09

/-- The double quote byte. -/
def doubleQuote : UInt8 := 0x22

/-- The apostrophe byte. -/
def apostrophe : UInt8 := 0x27

/-- The backslash byte. -/
def backslash : UInt8 := 0x5C

/-- The decimal digits of `n`, without leading zeros. -/
def decimal (n : Nat) : Bytes := (Nat.toDigits 10 n).map byte

/-- Order of byte strings: the first differing byte decides, and a proper beginning of a string
comes before it. -/
def precedes : Bytes → Bytes → Bool
  | _, [] => false
  | [], _ :: _ => true
  | a :: as, b :: bs => a < b || (a == b && precedes as bs)

/-- The text between single quotes. -/
def quoted (text : Bytes) : Bytes := apostrophe :: text ++ [apostrophe]

/-- The byte in front, or zero when there is none. -/
def front (bytes : Bytes) : UInt8 := bytes.headD 0

end Bytes

end LosslessBasic
