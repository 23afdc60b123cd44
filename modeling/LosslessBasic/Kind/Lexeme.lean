import LosslessBasic.Text.Bytes

/-!
# Lexemes

The significant tokens that are no keywords: literals, names, punctuation, the two carriers of
lexical errors, and the end marker.
-/

namespace LosslessBasic

/-- A significant token class other than a keyword. -/
inductive Lexeme where
  /-- A text in double quotes. -/
  | stringLiteral
  /-- A whole number. -/
  | integerLiteral
  /-- A whole number with the suffix of the wider range. -/
  | longLiteral
  /-- A number with a fraction or an exponent. -/
  | singleLiteral
  /-- A number with the suffix of double precision. -/
  | doubleLiteral
  /-- A number with the suffix of the scaled type. -/
  | decimalLiteral
  /-- A date or time between number signs. -/
  | dateLiteral
  /-- A name. -/
  | identifier
  /-- An opening parenthesis. -/
  | leftParen
  /-- A closing parenthesis. -/
  | rightParen
  /-- An opening brace. -/
  | leftBrace
  /-- A closing brace. -/
  | rightBrace
  /-- An opening bracket. -/
  | leftBracket
  /-- A closing bracket. -/
  | rightBracket
  /-- A comma. -/
  | comma
  /-- A semicolon. -/
  | semicolon
  /-- A colon. -/
  | colon
  /-- A colon and equals sign of a named argument. -/
  | colonEqual
  /-- A period. -/
  | period
  /-- An exclamation mark. -/
  | bang
  /-- A number sign that opens no date. -/
  | octothorpe
  /-- A dollar sign. -/
  | dollarSign
  /-- A percent sign. -/
  | percent
  /-- An at sign. -/
  | atSign
  /-- An ampersand. -/
  | ampersand
  /-- An underscore that is no part of a word. -/
  | underscore
  /-- A question mark. -/
  | question
  /-- A plus sign. -/
  | plus
  /-- A minus sign. -/
  | minus
  /-- An asterisk. -/
  | star
  /-- A slash. -/
  | slash
  /-- A backslash. -/
  | backslash
  /-- A caret. -/
  | caret
  /-- An equals sign. -/
  | equal
  /-- The sign of inequality. -/
  | notEqual
  /-- A less-than sign. -/
  | less
  /-- The sign for at most. -/
  | lessEqual
  /-- A greater-than sign. -/
  | greater
  /-- The sign for at least. -/
  | greaterEqual
  /-- A text whose closing quote is missing on its line. -/
  | unterminatedString
  /-- A character that starts no token. -/
  | unknownCharacter
  /-- The empty token after the last byte. -/
  | endOfFile
  deriving DecidableEq, Repr

namespace Lexeme

/-- All lexemes, in the order of their numbers. -/
def all : List Lexeme :=
  [.stringLiteral, .integerLiteral, .longLiteral, .singleLiteral, .doubleLiteral,
   .decimalLiteral, .dateLiteral, .identifier, .leftParen, .rightParen, .leftBrace, .rightBrace,
   .leftBracket, .rightBracket, .comma, .semicolon, .colon, .colonEqual, .period, .bang,
   .octothorpe, .dollarSign, .percent, .atSign, .ampersand, .underscore, .question, .plus,
   .minus, .star, .slash, .backslash, .caret, .equal, .notEqual, .less, .lessEqual, .greater,
   .greaterEqual, .unterminatedString, .unknownCharacter, .endOfFile]

/-- The name of a lexeme. -/
def name : Lexeme → String
  | stringLiteral => "StringLiteral"
  | integerLiteral => "IntegerLiteral"
  | longLiteral => "LongLiteral"
  | singleLiteral => "SingleLiteral"
  | doubleLiteral => "DoubleLiteral"
  | decimalLiteral => "DecimalLiteral"
  | dateLiteral => "DateLiteral"
  | identifier => "Identifier"
  | leftParen => "LeftParen"
  | rightParen => "RightParen"
  | leftBrace => "LeftBrace"
  | rightBrace => "RightBrace"
  | leftBracket => "LeftBracket"
  | rightBracket => "RightBracket"
  | comma => "Comma"
  | semicolon => "Semicolon"
  | colon => "Colon"
  | colonEqual => "ColonEqual"
  | period => "Period"
  | bang => "Bang"
  | octothorpe => "Octothorpe"
  | dollarSign => "DollarSign"
  | percent => "Percent"
  | atSign => "AtSign"
  | ampersand => "Ampersand"
  | underscore => "Underscore"
  | question => "Question"
  | plus => "Plus"
  | minus => "Minus"
  | star => "Star"
  | slash => "Slash"
  | backslash => "Backslash"
  | caret => "Caret"
  | equal => "Equal"
  | notEqual => "NotEqual"
  | less => "Less"
  | lessEqual => "LessEqual"
  | greater => "Greater"
  | greaterEqual => "GreaterEqual"
  | unterminatedString => "UnterminatedString"
  | unknownCharacter => "UnknownCharacter"
  | endOfFile => "EndOfFile"

/-- How messages spell a lexeme: the text of punctuation, a description of the rest. -/
def spelling : Lexeme → String
  | stringLiteral => "string literal"
  | integerLiteral => "integer literal"
  | longLiteral => "long literal"
  | singleLiteral => "single literal"
  | doubleLiteral => "double literal"
  | decimalLiteral => "decimal literal"
  | dateLiteral => "date literal"
  | identifier => "identifier"
  | leftParen => "("
  | rightParen => ")"
  | leftBrace => "\x7b"
  | rightBrace => "\x7d"
  | leftBracket => "["
  | rightBracket => "]"
  | comma => ","
  | semicolon => ";"
  | colon => ":"
  | colonEqual => ":="
  | period => "."
  | bang => "!"
  | octothorpe => "#"
  | dollarSign => "$"
  | percent => "%"
  | atSign => "@"
  | ampersand => "&"
  | underscore => "_"
  | question => "?"
  | plus => "+"
  | minus => "-"
  | star => "*"
  | slash => "/"
  | backslash => "\\"
  | caret => "^"
  | equal => "="
  | notEqual => "<>"
  | less => "<"
  | lessEqual => "<="
  | greater => ">"
  | greaterEqual => ">="
  | unterminatedString => "unterminated string"
  | unknownCharacter => "unknown character"
  | endOfFile => "end of file"

/-- The lexemes that are always written the same way. The number sign and the underscore are among
them where no date and no word begins. -/
def punctuation : List Lexeme :=
  [.leftParen, .rightParen, .leftBrace, .rightBrace, .leftBracket, .rightBracket, .comma,
   .semicolon, .colon, .colonEqual, .period, .bang, .octothorpe, .dollarSign, .percent, .atSign,
   .ampersand, .underscore, .question, .plus, .minus, .star, .slash, .backslash, .caret, .equal,
   .notEqual, .less, .lessEqual, .greater, .greaterEqual]

/-- The punctuation that is written as `text`. -/
def ofText? (text : Bytes) : Option Lexeme :=
  punctuation.find? fun l => Bytes.ofString l.spelling == text

/-- Whether the lexeme is a number. -/
def isNumber : Lexeme → Bool
  | integerLiteral | longLiteral | singleLiteral | doubleLiteral | decimalLiteral => true
  | _ => false

/-- Whether the lexeme is a literal. -/
def isLiteral : Lexeme → Bool
  | stringLiteral | dateLiteral => true
  | l => l.isNumber

/-- Whether the lexeme carries text that was reported when it was read. -/
def isError : Lexeme → Bool
  | unterminatedString | unknownCharacter => true
  | _ => false

end Lexeme

end LosslessBasic
