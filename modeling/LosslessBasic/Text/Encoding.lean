import LosslessBasic.Text.Ascii
import LosslessBasic.Text.Utf8

/-!
# Source encodings

The encodings a source file may have, their names, and the reading of a file's bytes as UTF-8 text.
The code page Windows-1252 agrees with ASCII below `0x80` and with Latin-1 from `0xA0` on. Its 32
positions in between are given by a table, in which the five unassigned positions stand for the
control characters of the same number.
-/

namespace LosslessBasic

namespace Windows1252

/-- The scalar values of the bytes `0x80` to `0x9F`. -/
def highTable : List Nat :=
  [0x20AC, 0x0081, 0x201A, 0x0192, 0x201E, 0x2026, 0x2020, 0x2021,
   0x02C6, 0x2030, 0x0160, 0x2039, 0x0152, 0x008D, 0x017D, 0x008F,
   0x0090, 0x2018, 0x2019, 0x201C, 0x201D, 0x2022, 0x2013, 0x2014,
   0x02DC, 0x2122, 0x0161, 0x203A, 0x0153, 0x009D, 0x017E, 0x0178]

/-- The scalar value that a byte of the code page stands for. -/
def scalar (c : UInt8) : Nat :=
  if 0x80 ≤ c && c < 0xA0 then highTable.getD (c.toNat - 0x80) c.toNat else c.toNat

/-- The UTF-8 form of a text of the code page. -/
def decode (bytes : Bytes) : Bytes := bytes.flatMap fun c => Utf8.encode (scalar c)

end Windows1252

/-- The encoding of a source file. -/
inductive Encoding where
  /-- The bytes are the text. -/
  | utf8
  /-- The bytes are of the legacy code page and are decoded first. -/
  | windows1252
  deriving DecidableEq, Repr

namespace Encoding

/-- The encoding of a given name, in any case. -/
def ofName? (name : Bytes) : Option Encoding :=
  let lowered := name.map Ascii.lower
  if [Bytes.ofString "utf8", Bytes.ofString "utf-8"].contains lowered then some .utf8
  else if [Bytes.ofString "cp1252", Bytes.ofString "windows-1252",
      Bytes.ofString "latin1"].contains lowered then some .windows1252
  else none

/-- The text of a file with the given bytes. -/
def decode : Encoding → Bytes → Bytes
  | utf8, bytes => bytes
  | windows1252, bytes => Windows1252.decode bytes

end Encoding

end LosslessBasic
