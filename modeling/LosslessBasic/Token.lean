import LosslessBasic.Kind
import LosslessBasic.Source.Location

/-!
# Tokens

A token is a piece of the source with its kind and place. Trivia are tokens too, so the texts of all
tokens of a source, one after the other, are the source. The second half of the module writes tokens
for dumps and messages.
-/

namespace LosslessBasic

/-- A piece of the source with its kind and place. -/
structure Token where
  /-- What the piece is. -/
  kind : Kind := .lexeme .endOfFile
  /-- The bytes of the piece. -/
  text : Bytes := []
  /-- The offset of its first byte. -/
  offset : UInt32 := 0
  /-- The location of its first byte. -/
  loc : Location := {}
  deriving DecidableEq, Repr, Inhabited

namespace Token

/-- The number of bytes of a token. -/
def length (t : Token) : UInt32 := t.text.length.toUInt32

/-- The offset just past a token. -/
def stop (t : Token) : UInt32 := t.offset + t.length

/-- The bytes a token covers. -/
def span (t : Token) : Span := { offset := t.offset, length := t.length }

/-! ## Writing tokens -/

/-- How a byte is written between double quotes: line breaks, tabs, quotes and backslashes by an
escape of two bytes, all others as they are. -/
def escapeByte (c : UInt8) : Bytes :=
  if c == Bytes.lineFeed then [Bytes.backslash, Bytes.byte 'n']
  else if c == Bytes.carriageReturn then [Bytes.backslash, Bytes.byte 'r']
  else if c == Bytes.tab then [Bytes.backslash, Bytes.byte 't']
  else if c == Bytes.doubleQuote then [Bytes.backslash, Bytes.doubleQuote]
  else if c == Bytes.backslash then [Bytes.backslash, Bytes.backslash]
  else [c]

/-- A text in the form in which it stands on one line between double quotes. -/
def escape (text : Bytes) : Bytes := text.flatMap escapeByte

/-- A kind with the range of bytes from `start` up to `stop`. -/
def describeRange (kind : Kind) (start stop : UInt32) : Bytes :=
  Bytes.ofString kind.name ++ [Bytes.byte '@'] ++ Bytes.decimal start.toNat ++
    Bytes.ofString ".." ++ Bytes.decimal stop.toNat

/-- A blank and a text in double quotes, as it follows the range of a token. -/
def describeText (text : Bytes) : Bytes :=
  Bytes.byte ' ' :: Bytes.doubleQuote :: escape text ++ [Bytes.doubleQuote]

/-- The line that stands for a token in a dump: kind, range and escaped text. -/
def format (t : Token) : Bytes := describeRange t.kind t.offset t.stop ++ describeText t.text

/-- How a message names a token: by its text between apostrophes, or by a word where the text is
empty or would break the line. -/
def describe (t : Token) : Bytes :=
  match t.kind with
  | .lexeme .endOfFile => Bytes.ofString "end of file"
  | .trivia .newline => Bytes.ofString "end of line"
  | .trivia .endOfLineComment | .trivia .remComment => Bytes.ofString "comment"
  | _ => Bytes.quoted t.text

/-- The lines that stand for tokens in a dump. -/
def dump (tokens : List Token) : Bytes :=
  tokens.flatMap fun t => t.format ++ [Bytes.lineFeed]

end Token

end LosslessBasic
