import LosslessBasic.Failure
import LosslessBasic.Lexer.Scan
import LosslessBasic.Token.Stream

/-!
# Lexical analysis

`Lexer.tokens` splits any byte string into tokens, the last of them the end marker. The walk goes
byte by byte and counts off the bytes that a token still has, so it ends with the source and leaves
no byte out. `Lexer.failures` reports the tokens that carry an error.
-/

namespace LosslessBasic.Lexer

/-- Walks over `rest` from position `p`, with `within` bytes of the last token still to come, and
puts the tokens found in front of those in `found`, the latest first. -/
def tokensOnto (file : UInt32) (found : List Token) (within : Nat) (p : Position) :
    Bytes → List Token
  | [] => { offset := p.offset.toUInt32, loc := p.locate file } :: found
  | c :: rest =>
    match within with
    | k + 1 => tokensOnto file found k (p.step c rest.head?) rest
    | 0 =>
      let (kind, width) := scan c rest
      let token : Token :=
        { kind := kind
          text := c :: rest.take (width - 1)
          offset := p.offset.toUInt32
          loc := p.locate file }
      tokensOnto file (token :: found) (width - 1) (p.step c rest.head?) rest

/-- The tokens of a source, with the end marker behind them. -/
def tokens (source : Bytes) (file : UInt32) : List Token :=
  (tokensOnto file [] 0 {} source).reverse

/-- What is wrong with a token by itself. -/
def problem? (t : Token) : Option Problem :=
  match t.kind with
  | .lexeme .unterminatedString => some .unterminatedString
  | .lexeme .unknownCharacter => some (.unknownCharacter t.text)
  | _ => none

/-- The failures of tokens by themselves, in the order of the tokens. -/
def failures (tokens : List Token) : List Failure :=
  tokens.filterMap fun t => (problem? t).map fun problem => Failure.atToken problem t

end LosslessBasic.Lexer
