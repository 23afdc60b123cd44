import LosslessBasic.Text.Bytes

/-!
# UTF-8

`scalarWidth?` recognises the shortest-form encoding of one Unicode scalar value at the front of a
byte string; `firstInvalid?` walks over a byte string scalar by scalar and gives the offset at which
no scalar starts. `encode` writes the scalars below `0x10000` that code pages need.
-/

namespace LosslessBasic.Utf8

/-- A continuation byte, `10xxxxxx`. -/
def isContinuation (c : UInt8) : Bool := c &&& 0xC0 == 0x80

/-- The width announced by the lead byte of a sequence. A byte that leads no sequence counts as a
sequence of its own, so that a reader always moves on. -/
def sequenceLength (lead : UInt8) : Nat :=
  if lead < 0x80 then 1
  else if lead &&& 0xE0 == 0xC0 then 2
  else if lead &&& 0xF0 == 0xE0 then 3
  else if lead &&& 0xF8 == 0xF0 then 4
  else 1

/-- The six payload bits of a continuation byte. -/
def payload (c : UInt8) : Nat := (c &&& 0x3F).toNat

/-- A code point that is a scalar value: at most `0x10FFFF` and no surrogate. -/
def isScalar (codePoint : Nat) : Bool :=
  codePoint ≤ 0x10FFFF && !(0xD800 ≤ codePoint && codePoint ≤ 0xDFFF)

/-- The number of bytes of the scalar value encoded at the front of the bytes, when there is one.
An encoding longer than the scalar needs is refused. -/
def scalarWidth? : Bytes → Option Nat
  | [] => none
  | a :: rest =>
    if a < 0x80 then some 1
    else if a &&& 0xE0 == 0xC0 then
      match rest with
      | b :: _ =>
        let codePoint := (a &&& 0x1F).toNat * 64 + payload b
        if isContinuation b && 0x80 ≤ codePoint then some 2 else none
      | [] => none
    else if a &&& 0xF0 == 0xE0 then
      match rest with
      | b :: c :: _ =>
        let codePoint := ((a &&& 0x0F).toNat * 64 + payload b) * 64 + payload c
        if isContinuation b && isContinuation c && 0x800 ≤ codePoint && isScalar codePoint then
          some 3
        else none
      | _ => none
    else if a &&& 0xF8 == 0xF0 then
      match rest with
      | b :: c :: d :: _ =>
        let codePoint := (((a &&& 0x07).toNat * 64 + payload b) * 64 + payload c) * 64 + payload d
        if isContinuation b && isContinuation c && isContinuation d && 0x10000 ≤ codePoint &&
            isScalar codePoint then
          some 4
        else none
      | _ => none
    else none

/-- Walks on from `offset`, inside a scalar whose last `within` bytes are still to come, and gives
the offset of the first byte at which no scalar starts. -/
def firstInvalidFrom (within offset : Nat) : Bytes → Option Nat
  | [] => none
  | c :: rest =>
    match within with
    | k + 1 => firstInvalidFrom k (offset + 1) rest
    | 0 =>
      match scalarWidth? (c :: rest) with
      | none => some offset
      | some width => firstInvalidFrom (width - 1) (offset + 1) rest

/-- The offset of the first byte that starts no scalar value, or `none` when the bytes are the
encoding of a sequence of scalar values. -/
def firstInvalid? (bytes : Bytes) : Option Nat := firstInvalidFrom 0 0 bytes

/-- Whether the bytes are the encoding of a sequence of scalar values. -/
def isValid (bytes : Bytes) : Bool := (firstInvalid? bytes).isNone

/-- The encoding of a scalar value below `0x10000`. -/
def encode (scalar : Nat) : Bytes :=
  if scalar < 0x80 then [scalar.toUInt8]
  else if scalar < 0x800 then [(0xC0 + scalar / 64).toUInt8, (0x80 + scalar % 64).toUInt8]
  else
    [(0xE0 + scalar / 4096).toUInt8, (0x80 + scalar / 64 % 64).toUInt8,
      (0x80 + scalar % 64).toUInt8]

end LosslessBasic.Utf8
