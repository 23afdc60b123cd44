import LosslessBasic.Grammar.Statement
import LosslessBasic.Lexer
import LosslessBasic.Tree.Query

/-!
# Documents

Reading a source as a whole. Every source that is UTF-8 has a tree, whatever is wrong with the
program; the failures say what is. Failures of single tokens come first, then those of the grammar,
each in the order in which they were found.
-/

namespace LosslessBasic

/-- A source that has been read. -/
structure Document where
  /-- The name under which the source is known. -/
  origin : Bytes
  /-- The tree of the whole source. -/
  root : Tree
  /-- The accesses that start with a dot or bang, each with the header of its `With`. -/
  implicitTargets : List (Tree × Tree)

/-- What comes of reading a source. -/
structure Reading where
  /-- The source as a document; missing only for a source that is not UTF-8. -/
  document? : Option Document
  /-- What is wrong with the source. -/
  failures : List Failure
  /-- The steps of the reading. -/
  events : List Event := []

namespace Reading

/-- Whether nothing is wrong with the source. -/
def isOk (r : Reading) : Bool := r.document?.isSome && r.failures.isEmpty

/-- The lines of the trace. -/
def trace (r : Reading) : Bytes := r.events.flatMap Event.line

end Reading

namespace Document

/-- The line and column behind `bytes`, which start at the given ones. A column counts bytes here,
as they are no characters. -/
def byteLocation (file : UInt32) (line column : Nat) : Bytes → Location
  | [] => { file := file, line := line.toUInt32, column := column.toUInt32 }
  | c :: rest =>
    if c == Bytes.carriageReturn && rest.head? == some Bytes.lineFeed then
      byteLocation file line column rest
    else if Ascii.isLineBreak c then byteLocation file (line + 1) 1 rest
    else byteLocation file line (column + 1) rest

/-- The failure of a source in which no character starts at the given offset. -/
def encodingFailure (source : Bytes) (file : UInt32) (offset : Nat) : Failure :=
  { problem := .invalidEncoding
    span := { offset := offset.toUInt32, length := 1 }
    loc := byteLocation file 1 1 (source.take offset) }

/-- The state of the grammar after it has read the given tokens. -/
def grammarState (tokens : List Token) : Grammar.State :=
  (Grammar.source.run { stream := .ofTokens tokens }).2

/-- Reads a source that is UTF-8. -/
def readText (origin source : Bytes) (file : UInt32) : Reading :=
  let tokens := Lexer.tokens source file
  let final := grammarState tokens
  { document? := final.builder.finish.1.map fun root =>
      { origin := origin, root := root, implicitTargets := final.implicitTargets.toList }
    failures := Lexer.failures tokens ++ final.failures.toList
    events := final.log.toList }

/-- Reads a source. -/
def read (origin source : Bytes) (file : UInt32) : Reading :=
  match Utf8.firstInvalid? source with
  | some offset => { document? := none, failures := [encodingFailure source file offset] }
  | none => readText origin source file

/-- The bytes of all tokens of a document. -/
def text (d : Document) : Bytes := d.root.text

/-- The header of the `With` that an access refers to by its leading dot or bang. -/
def implicitWithTarget? (d : Document) (access : Tree) : Option Tree :=
  (d.implicitTargets.find? fun p => p.1 = access).map (·.2)

end Document

end LosslessBasic
