import LosslessBasic.Failure
import LosslessBasic.Source.Registry

/-!
# Diagnostics

A diagnostic is a message for the user of a tool, with a severity and, where they are known, a
location and a code. Its header is one line, which starts with the place in the form
path, line, column, as far as the place is known.
-/

namespace LosslessBasic

/-- How grave a diagnostic is. -/
inductive Severity where
  /-- It explains another one. -/
  | note
  /-- It can be ignored. -/
  | warning
  /-- It cannot be ignored. -/
  | error
  deriving DecidableEq, Repr

/-- How a severity is written. -/
def Severity.text : Severity → Bytes
  | note => Bytes.ofString "note"
  | warning => Bytes.ofString "warning"
  | error => Bytes.ofString "error"

/-- A message for the user. -/
structure Diagnostic where
  /-- How grave it is. -/
  severity : Severity
  /-- What is said. -/
  message : Bytes
  /-- The place it is said about. -/
  loc : Location := {}
  /-- The code of what is said; empty when it has none. -/
  code : Bytes := []
  deriving DecidableEq, Repr

namespace Diagnostic

/-- An error without a code. -/
def ofError (loc : Location) (message : Bytes) : Diagnostic :=
  { severity := .error, message := message, loc := loc }

/-- A failure as a diagnostic. -/
def ofFailure (f : Failure) : Diagnostic :=
  { severity := .error, message := f.message, loc := f.loc, code := Bytes.ofString f.code }

/-- The colon before a number that is known. -/
def colonNumber (n : UInt32) : Bytes := Bytes.byte ':' :: Bytes.decimal n.toNat

/-- The line and the column of a location, each after a colon. The column is left out where the
line is unknown. -/
def position (loc : Location) : Bytes :=
  if loc.line = 0 then []
  else colonNumber loc.line ++ (if loc.column = 0 then [] else colonNumber loc.column)

/-- The place at the start of a header; nothing for a file that the registry does not know. -/
def place (registry : Registry) (loc : Location) : Bytes :=
  let path := registry.path loc.file
  if path.isEmpty then [] else path ++ position loc ++ Bytes.ofString ": "

/-- A code in brackets. -/
def bracketed (code : Bytes) : Bytes := Bytes.byte '[' :: code ++ [Bytes.byte ']']

/-- The header line, with `label` between the severity and the message. -/
def headerWith (label : Bytes) (registry : Registry) (d : Diagnostic) : Bytes :=
  place registry d.loc ++ d.severity.text ++ label ++ Bytes.ofString ": " ++ d.message ++
    [Bytes.lineFeed]

/-- The line of a diagnostic on its own. Brackets stand only around a code that there is. Without a
registry, an empty one will do: no place is written. -/
def line (registry : Registry) (d : Diagnostic) : Bytes :=
  d.headerWith (if d.code.isEmpty then [] else bracketed d.code) registry

end Diagnostic

end LosslessBasic
