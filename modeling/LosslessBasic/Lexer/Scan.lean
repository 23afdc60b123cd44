import LosslessBasic.Kind
import LosslessBasic.Kind.Keyword.Lookup
import LosslessBasic.Lexer.Date
import LosslessBasic.Lexer.Number
import LosslessBasic.Source.Cursor

/-!
# Recognising one token

`scan` says of the bytes from a token's start on what the token is and how many bytes it has. It
looks at these bytes alone: what comes before a token never changes it.
-/

namespace LosslessBasic.Lexer

open Bytes Ascii

/-- The number of bytes before the end of the line. -/
def lineWidth (bytes : Bytes) : Nat := (bytes.takeWhile fun c => !isLineBreak c).length

/-- Whether a comment starts with the word `Rem`: no word goes on behind it and no type suffix
makes a name of it. -/
def startsRemComment (bytes : Bytes) : Bool :=
  startsWithIgnoringCase bytes (ofString "REM") &&
    !isWordByte (front (bytes.drop 3)) && !isTypeSuffix (front (bytes.drop 3))

/-- The width of the line continuation in front: an underscore, blanks and a line break. -/
def continuationWidth? : Bytes → Option Nat
  | [] => none
  | c :: rest =>
    if c == byte '_' then
      let blanks := (rest.takeWhile isBlank).length
      let lineBreak := Cursor.lineBreakWidth (rest.drop blanks)
      if lineBreak == 0 then none else some (1 + blanks + lineBreak)
    else none

/-- Reads the text behind an opening double quote, of which `seen` bytes are read already: whether
a quote closes it on its line, and how many bytes it has up to there. Two quotes in a row stand for
one within the text. -/
def closeQuote (seen : Nat) : Bytes → Bool × Nat
  | [] => (false, seen)
  | c :: rest =>
    if isLineBreak c then (false, seen)
    else if c == doubleQuote then
      match rest with
      | [] => (true, seen + 1)
      | d :: rest' => if d == doubleQuote then closeQuote (seen + 2) rest' else (true, seen + 1)
    else closeQuote (seen + 1) rest

/-- The kind and width of the text that starts with a double quote in front of `rest`. -/
def stringLiteral (rest : Bytes) : Lexeme × Nat :=
  match closeQuote 1 rest with
  | (true, width) => (.stringLiteral, width)
  | (false, width) => (.unterminatedString, width)

/-- The kind and width of what starts with a number sign in front of `rest`: a date literal where
the line has a second number sign and a date between the two, else the sign alone. -/
def dateLiteral (rest : Bytes) : Lexeme × Nat :=
  let line := rest.take (lineWidth rest)
  let body := line.takeWhile fun c => c != byte '#'
  if body.length < line.length && DateText.isDate body then (.dateLiteral, body.length + 2)
  else (.octothorpe, 1)

/-- The kind and width of the word in front. A dollar sign makes a name of any word; another type
suffix belongs to a name where no word goes on behind it. -/
def word (bytes : Bytes) : Kind × Nat :=
  let text := bytes.takeWhile isWordByte
  let rest := bytes.drop text.length
  if front rest == byte '$' then (.lexeme .identifier, text.length + 1)
  else
    match Keyword.ofWord? text with
    | some keyword => (.keyword keyword, text.length)
    | none =>
      if isTypeSuffix (front rest) && !isWordByte (front (rest.drop 1)) then
        (.lexeme .identifier, text.length + 1)
      else (.lexeme .identifier, text.length)

/-- The kind and width of the punctuation in front, the longer of two that fit, or of a character
that starts no token. -/
def punctuation (c : UInt8) (rest : Bytes) : Lexeme × Nat :=
  match Lexeme.ofText? (c :: rest.take 1) with
  | some lexeme => (lexeme, 1 + (rest.take 1).length)
  | none =>
    match Lexeme.ofText? [c] with
    | some lexeme => (lexeme, 1)
    | none => (.unknownCharacter, min (Utf8.sequenceLength c) (1 + rest.length))

/-- The kind and width of the token that starts with the byte `c` in front of `rest`. -/
def scan (c : UInt8) (rest : Bytes) : Kind × Nat :=
  let bytes := c :: rest
  if isLineBreak c then (.trivia .newline, Cursor.lineBreakWidth bytes)
  else if c == apostrophe then (.trivia .endOfLineComment, lineWidth bytes)
  else if startsRemComment bytes then (.trivia .remComment, lineWidth bytes)
  else if c == doubleQuote then (stringLiteral rest).map .lexeme id
  else if c == byte '#' then (dateLiteral rest).map .lexeme id
  else
    match continuationWidth? bytes with
    | some width => (.trivia .lineContinuation, width)
    | none =>
      if Number.startsDecimal c rest then (Number.decimal bytes).map .lexeme id
      else
        match Number.based? bytes with
        | some number => number.map .lexeme id
        | none =>
          if isLetter c || (c == byte '_' && isWordByte (front rest)) then word bytes
          else if isBlank c then (.trivia .whitespace, (bytes.takeWhile isBlank).length)
          else (punctuation c rest).map .lexeme id

end LosslessBasic.Lexer
