import LosslessBasic.Text.Bytes

/-!
# ASCII character classes

The classes of bytes that the lexical rules speak of. They know ASCII alone: a byte from `0x80` on
is no letter, no digit and no blank, whatever character it belongs to.
-/

namespace LosslessBasic.Ascii

open Bytes

/-- A letter of the Latin alphabet in either case. -/
def isLetter (c : UInt8) : Bool :=
  (byte 'A' ≤ c && c ≤ byte 'Z') || (byte 'a' ≤ c && c ≤ byte 'z')

/-- A decimal digit. -/
def isDigit (c : UInt8) : Bool := byte '0' ≤ c && c ≤ byte '9'

/-- A hexadecimal digit in either case. -/
def isHexDigit (c : UInt8) : Bool :=
  isDigit c || (byte 'A' ≤ c && c ≤ byte 'F') || (byte 'a' ≤ c && c ≤ byte 'f')

/-- An octal digit. -/
def isOctalDigit (c : UInt8) : Bool := byte '0' ≤ c && c ≤ byte '7'

/-- A byte that continues a word: letter, digit or underscore. -/
def isWordByte (c : UInt8) : Bool := isLetter c || isDigit c || c == byte '_'

/-- A blank within a line: space, tab, form feed or vertical tab. -/
def isBlank (c : UInt8) : Bool := c == byte ' ' || c == tab || c == 0x0C || c == 0x0B

/-- A byte of a line break. -/
def isLineBreak (c : UInt8) : Bool := c == carriageReturn || c == lineFeed

/-- A type character, which may end a name or a number. -/
def isTypeSuffix (c : UInt8) : Bool :=
  c == byte '%' || c == byte '&' || c == byte '!' || c == byte '#' || c == byte '@' ||
    c == byte '$'

/-- The upper-case form of a letter; other bytes stay. -/
def upper (c : UInt8) : UInt8 :=
  if byte 'a' ≤ c && c ≤ byte 'z' then c - 32 else c

/-- The lower-case form of a letter; other bytes stay. -/
def lower (c : UInt8) : UInt8 :=
  if byte 'A' ≤ c && c ≤ byte 'Z' then c + 32 else c

/-- Equality of two byte strings up to the case of letters. -/
def equalIgnoringCase (a b : Bytes) : Bool := a.map upper == b.map upper

/-- Whether `text` starts with `word`, up to the case of letters. -/
def startsWithIgnoringCase (text word : Bytes) : Bool :=
  equalIgnoringCase (text.take word.length) word

end LosslessBasic.Ascii
