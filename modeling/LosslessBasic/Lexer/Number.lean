import LosslessBasic.Kind.Lexeme
import LosslessBasic.Text.Ascii

/-!
# Numbers

The widths of numeric literals. A decimal number is a digit run with an optional fraction, exponent
and type suffix; `&H` and `&O` open numbers of other bases. A dot belongs to the number only where
no name and no second dot follows it, so that `12.Name` and `1..2` leave the dot alone.
-/

namespace LosslessBasic.Number

open Bytes Ascii

/-- The width of the run of digits in front. -/
def digitRun (bytes : Bytes) : Nat := (bytes.takeWhile isDigit).length

/-- The width of the fraction in front: a dot and the digits behind it. -/
def fractionWidth : Bytes → Nat
  | [] => 0
  | dot :: rest =>
    if dot == byte '.' then
      if isDigit (front rest) then 1 + digitRun rest
      else if front rest != byte '.' && !isWordByte (front rest) then 1
      else 0
    else 0

/-- The width of the exponent in front: the letter E or D, an optional sign, and digits. -/
def exponentWidth : Bytes → Nat
  | [] => 0
  | letter :: rest =>
    if upper letter == byte 'E' || upper letter == byte 'D' then
      let signWidth := if front rest == byte '+' || front rest == byte '-' then 1 else 0
      let digits := digitRun (rest.drop signWidth)
      if digits == 0 then 0 else 1 + signWidth + digits
    else 0

/-- The class that a type suffix gives to a number. -/
def suffixed? (suffix : UInt8) : Option Lexeme :=
  if suffix == byte '%' then some .integerLiteral
  else if suffix == byte '&' then some .longLiteral
  else if suffix == byte '!' then some .singleLiteral
  else if suffix == byte '#' then some .doubleLiteral
  else if suffix == byte '@' then some .decimalLiteral
  else none

/-- The class and width of the decimal number in front. A suffix counts only where no word goes on
behind it. -/
def decimal (bytes : Bytes) : Lexeme × Nat :=
  let whole := digitRun bytes
  let fraction := fractionWidth (bytes.drop whole)
  let exponent := exponentWidth (bytes.drop (whole + fraction))
  let width := whole + fraction + exponent
  let plain := if fraction + exponent == 0 then Lexeme.integerLiteral else .singleLiteral
  match bytes.drop width with
  | [] => (plain, width)
  | suffix :: rest =>
    match suffixed? suffix with
    | some lexeme => if isWordByte (front rest) then (plain, width) else (lexeme, width + 1)
    | none => (plain, width)

/-- Whether a decimal number starts with the byte `c` in front of `rest`. -/
def startsDecimal (c : UInt8) (rest : Bytes) : Bool :=
  isDigit c || (c == byte '.' && isDigit (front rest))

/-- The digits of the base that a letter behind the ampersand names. -/
def radixDigit? (letter : UInt8) : Option (UInt8 → Bool) :=
  if upper letter == byte 'H' then some isHexDigit
  else if upper letter == byte 'O' then some isOctalDigit
  else none

/-- The class and width of the number of base 16 or 8 in front, when there is one. -/
def based? : Bytes → Option (Lexeme × Nat)
  | ampersand :: letter :: rest =>
    if ampersand == byte '&' then
      match radixDigit? letter with
      | none => none
      | some isRadixDigit =>
        let digits := (rest.takeWhile isRadixDigit).length
        let suffix := front (rest.drop digits)
        if digits == 0 then none
        else if suffix == byte '&' then some (.longLiteral, digits + 3)
        else if suffix == byte '%' then some (.integerLiteral, digits + 3)
        else some (.integerLiteral, digits + 2)
    else none
  | _ => none

end LosslessBasic.Number
