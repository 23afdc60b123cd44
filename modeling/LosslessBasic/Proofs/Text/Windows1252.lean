import LosslessBasic.Proofs.Text.CodePoints
import LosslessBasic.Text.Encoding

/-!
# The code points of a code page

A byte of Windows-1252 stands for one code point, and what a text is decoded to is the encoding of
these code points (`Windows1252.decode_eq_ofChars`). So it is UTF-8, whatever the bytes of the text
are. No two bytes stand for the same code point (`Windows1252.char_injective`), so no two texts are
decoded to the same one.

## Main results

* `Windows1252.decode_reversible`: the decoder is total and reversible.
-/

namespace LosslessBasic.Windows1252

set_option maxRecDepth 2000

/-- The code point that a byte of the code page stands for. -/
def char (c : UInt8) : Char := Char.ofNat (scalar c)

/-- The scalar value of a byte is encoded as its code point is. -/
theorem encode_scalar : ∀ c, Utf8.encode (scalar c) = String.utf8EncodeChar (char c) := by
  decide

theorem decode_eq_ofChars (bytes : Bytes) : decode bytes = Utf8.ofChars (bytes.map char) := by
  rw [decode, Utf8.ofChars, List.flatMap_map]
  exact congrArg (bytes.flatMap ·) (funext encode_scalar)

/-- Every text of the code page is decoded to UTF-8. -/
theorem firstInvalid?_decode (bytes : Bytes) : Utf8.firstInvalid? (decode bytes) = none := by
  rw [decode_eq_ofChars]
  exact Utf8.firstInvalid?_ofChars _

/-- Texts one behind the other are decoded one behind the other. -/
theorem decode_append (a b : Bytes) : decode (a ++ b) = decode a ++ decode b := List.flatMap_append

/-- An ASCII byte is decoded to itself. -/
theorem decode_singleton : ∀ c : UInt8, c < 0x80 → decode [c] = [c] := by decide

/-- The byte that stands for a scalar value of the code page. -/
def byteOf (scalar : Nat) : UInt8 :=
  if highTable.contains scalar then (0x80 + highTable.idxOf scalar).toUInt8 else scalar.toUInt8

/-- The byte is found again from the code point that it stands for. -/
theorem byteOf_char : ∀ c, byteOf (char c).toNat = c := by decide

theorem char_injective : Function.Injective char :=
  Function.LeftInverse.injective (g := fun c : Char => byteOf c.toNat) byteOf_char

/-- Two texts that are decoded to the same one are the same. -/
theorem decode_injective : Function.Injective decode := by
  intro a b h
  rw [decode_eq_ofChars, decode_eq_ofChars] at h
  exact (List.map_inj_right fun _ _ hc => char_injective hc).mp (Utf8.ofChars_injective h)

/-- The decoder gives UTF-8 for any bytes, with one code point for each of them. It goes byte by
byte, leaves the ASCII bytes as they are, and no two texts are decoded to the same one. -/
theorem decode_reversible (a b : Bytes) :
    Utf8.firstInvalid? (decode a) = none ∧
      (∃ cs, decode a = Utf8.ofChars cs ∧ cs.length = a.length) ∧
      decode (a ++ b) = decode a ++ decode b ∧
      (∀ c : UInt8, c < 0x80 → decode (a ++ c :: b) = decode a ++ c :: decode b) ∧
      (decode a = decode b → a = b) := by
  refine ⟨firstInvalid?_decode a, ⟨a.map char, decode_eq_ofChars a, List.length_map _⟩,
    decode_append a b, fun c hc => ?_, fun h => decode_injective h⟩
  rw [decode_append, ← List.singleton_append, decode_append, decode_singleton c hc,
    List.singleton_append]

/-- The first byte of the table between two ASCII bytes. -/
example : decode [0x28, 0x80, 0x29] = [0x28, 0xE2, 0x82, 0xAC, 0x29] := by decide

end LosslessBasic.Windows1252
