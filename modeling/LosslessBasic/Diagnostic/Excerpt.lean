import LosslessBasic.Text.Ascii

/-!
# Excerpts of a source

The line of a source that a diagnostic is about, with carets below the bytes in question. CR LF, LF
and a lone CR end a line each, as they do for `Position`.
-/

namespace LosslessBasic.Excerpt

/-- The bytes behind the first line break. -/
def afterBreak? : Bytes → Option Bytes
  | [] => none
  | c :: rest =>
    if c == Bytes.carriageReturn && rest.head? == some Bytes.lineFeed then afterBreak? rest
    else if Ascii.isLineBreak c then some rest
    else afterBreak? rest

/-- The bytes up to the first line break. -/
def firstLine (source : Bytes) : Bytes := source.takeWhile fun c => !Ascii.isLineBreak c

/-- The line behind a number of line breaks, without the break that ends it. -/
def lineAfter? : Nat → Bytes → Option Bytes
  | 0, source => some (firstLine source)
  | breaks + 1, source =>
    match afterBreak? source with
    | none => none
    | some rest => lineAfter? breaks rest

/-- The line of a given number, counted from one; nothing for a line that is not there. -/
def line (source : Bytes) (number : UInt32) : Bytes :=
  if number = 0 then [] else (lineAfter? (number.toNat - 1) source).getD []

/-- The blanks in front of the carets for a column. -/
def indent (column : UInt32) : Nat := column.toNat - 1

/-- The number of bytes of a line from a column on, as a word. -/
def room (line : Bytes) (column : UInt32) : UInt32 := (line.length - indent column).toUInt32

/-- The number of carets below a line for `length` bytes from a column on: they stop at the end of
the line, but there is always one. -/
def caretCount (line : Bytes) (column length : UInt32) : Nat :=
  max 1 (min length.toNat (room line column).toNat)

/-- The line of carets. -/
def carets (line : Bytes) (column length : UInt32) : Bytes :=
  List.replicate (indent column) (Bytes.byte ' ') ++
    List.replicate (caretCount line column length) (Bytes.byte '^')

/-- A line of a source with the carets below it. A line without bytes is not shown. -/
def text (line : Bytes) (column length : UInt32) : Bytes :=
  if line.isEmpty then []
  else line ++ [Bytes.lineFeed] ++ carets line column length ++ [Bytes.lineFeed]

end LosslessBasic.Excerpt
