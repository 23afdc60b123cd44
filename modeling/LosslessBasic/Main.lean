import LosslessBasic.Command.Run

/-!
# The command line

Reads the source file the arguments name, and shows the user what becomes of the command. Everything
else is decided by `Run`.
-/

open LosslessBasic

namespace LosslessBasic.Run

/-- The bytes of a file, if it can be read. -/
def readFile? (path : Bytes) : IO (Option Bytes) :=
  match String.fromUTF8? (ByteArray.mk path.toArray) with
  | none => pure none
  | some name => do
    try
      let contents ← IO.FS.readBinFile name
      pure (some contents.data.toList)
    catch _ => pure none

/-- Writes bytes to a stream. -/
def writeBytes (stream : IO.FS.Stream) (bytes : Bytes) : IO Unit := do
  stream.write (ByteArray.mk bytes.toArray)
  stream.flush

end LosslessBasic.Run

/-- Runs the tool with the given arguments. -/
def main (arguments : List String) : IO UInt32 := do
  let arguments := arguments.map Bytes.ofString
  let contents? ←
    match Run.source? arguments with
    | none => pure none
    | some path => Run.readFile? path
  let outcome := Run.outcome arguments contents?
  Run.writeBytes (← IO.getStderr) outcome.err
  Run.writeBytes (← IO.getStdout) outcome.out
  return outcome.exit
