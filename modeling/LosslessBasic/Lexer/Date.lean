import LosslessBasic.Text.Ascii

/-!
# Dates and times

The text between the number signs of a date literal: a date of three numbers, a time with minutes or
with `AM` or `PM`, or a date and a time with blanks around them. Each reader gives the bytes behind
what it has read.
-/

namespace LosslessBasic.DateText

open Bytes Ascii

/-- Reads a run of digits. -/
def digits? : Bytes → Option Bytes
  | [] => none
  | c :: rest => if isDigit c then some (rest.dropWhile isDigit) else none

/-- Reads spaces and tabs. -/
def blanks (bytes : Bytes) : Bytes := bytes.dropWhile fun c => c == byte ' ' || c == tab

/-- Reads the given byte. -/
def accept? (expected : UInt8) : Bytes → Option Bytes
  | [] => none
  | c :: rest => if c == expected then some rest else none

/-- Reads the sign between the numbers of a date, a slash or a minus. -/
def separator? : Bytes → Option (UInt8 × Bytes)
  | [] => none
  | c :: rest => if c == byte '/' || c == byte '-' then some (c, rest) else none

/-- Reads three numbers with the same sign between them. -/
def date? (bytes : Bytes) : Option Bytes := do
  let rest ← digits? bytes
  let (sign, rest) ← separator? rest
  let rest ← digits? rest
  let rest ← accept? sign rest
  digits? rest

/-- Reads a colon and a number, when a colon is next. -/
def clockPart? (bytes : Bytes) : Option (Bool × Bytes) :=
  match accept? (byte ':') bytes with
  | none => some (false, bytes)
  | some rest => (digits? rest).map fun rest => (true, rest)

/-- Reads `AM` or `PM` behind blanks. -/
def meridiem? (bytes : Bytes) : Option Bytes :=
  let rest := blanks bytes
  if startsWithIgnoringCase rest (ofString "AM") || startsWithIgnoringCase rest (ofString "PM") then
    some (rest.drop 2)
  else none

/-- Reads an hour with minutes and seconds, of which a time without `AM` or `PM` needs the
minutes. -/
def time? (bytes : Bytes) : Option Bytes := do
  let rest ← digits? bytes
  let (hasMinutes, rest) ← clockPart? rest
  let (_, rest) ← if hasMinutes then clockPart? rest else some (false, rest)
  match meridiem? rest with
  | some rest => some rest
  | none => if hasMinutes then some rest else none

/-- Reads a date with an optional time, or a time. -/
def dateOrTime? (bytes : Bytes) : Option Bytes :=
  match date? bytes with
  | some rest => some ((time? (blanks rest)).getD (blanks rest))
  | none => time? bytes

/-- Whether the text between two number signs makes a date literal of them. -/
def isDate (body : Bytes) : Bool :=
  match dateOrTime? (blanks body) with
  | none => false
  | some rest => (blanks rest).isEmpty

end LosslessBasic.DateText
