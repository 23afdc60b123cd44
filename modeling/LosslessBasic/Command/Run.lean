import LosslessBasic.Command.Configuration
import LosslessBasic.Diagnostic.Report
import LosslessBasic.Document
import LosslessBasic.Source.Load
import LosslessBasic.Tree.Dump

/-!
# Runs of the tool

The tool reads one source file and shows its failures, and on demand its tokens, its tree or the
text of its tree. The reading of the file is left to the caller: `Run.source?` says which one it is,
and `Run.outcome` takes its bytes. An outcome is what the user sees of a command that has ended.
-/

namespace LosslessBasic

/-- The end of a command. -/
structure Outcome where
  /-- The exit status: zero if nothing is wrong. -/
  exit : UInt32
  /-- What was written to the standard output. -/
  out : Bytes := []
  /-- What was written to the standard error. -/
  err : Bytes := []
  deriving DecidableEq, Repr

/-- The outcome of a command that ends before it reads a source file. `usage` says how the tool is
used and `version` which version it is. -/
def Halt.outcome (usage version : Bytes) : Halt → Outcome
  | help => { exit := 0, err := usage }
  | .version => { exit := 0, out := version }
  | refused r =>
    { exit := 1, err := Bytes.ofString "error: " ++ r.message ++ Bytes.ofString "\n\n" ++ usage }

namespace Run

/-- How the tool is used. -/
def usage : Bytes :=
  Bytes.ofString <|
    "usage: basil-cst [options] <file.bas|.cls|.frm|.ctl>\n" ++
    "\n" ++
    "Parse a BASIC source file into a lossless concrete syntax tree.\n" ++
    "\n" ++
    "options:\n" ++
    "  --tree              print the syntax tree\n" ++
    "  --tokens            print the token stream\n" ++
    "  --text              print the text reconstructed from the tree\n" ++
    "  --check             verify that the tree reproduces the source (exit 2 if not)\n" ++
    "  --encoding=<name>   source encoding: utf8 (default) or cp1252\n" ++
    "  --trace             trace parser decisions to stderr\n" ++
    "  -h, --help          show this help\n" ++
    "  --version           show the version\n"

/-- The version of the tool. -/
def version : Bytes := Bytes.ofString "basil-cst 0.1.0\n"

/-- The number of bytes at the start in which two texts agree. -/
def agreement : Bytes → Bytes → Nat
  | a :: as, b :: bs => if a = b then agreement as bs + 1 else 0
  | _, _ => 0

/-- The outcome of showing the tokens of a source. -/
def tokensOutcome (source : Loaded) : Outcome :=
  let tokens := Lexer.tokens source.text source.file
  { exit := if (Lexer.failures tokens).isEmpty then 0 else 1, out := Token.dump tokens }

/-- What a mode writes of a document. -/
def output (mode : Mode) (document : Document) : Bytes :=
  match mode with
  | .tree => document.root.dump
  | .text => document.text
  | _ => []

/-- What is said of a document whose text is not its source. -/
def differs (path : Bytes) (text source : Bytes) : Bytes :=
  path ++ Bytes.ofString ": error: round trip differs at byte " ++
    Bytes.decimal (agreement text source) ++ [Bytes.lineFeed]

/-- Whether the mode checks the text of a document and finds that it is not the source. -/
def checkFails (mode : Mode) (document : Document) (source : Bytes) : Bool :=
  mode == .check && document.text != source

/-- The outcome of reading a source. -/
def readingOutcome (c : Configuration) (registry : Registry) (source : Loaded) : Outcome :=
  let reading := Document.read c.source source.text source.file
  let report := (Report.addSource {} source.file source.text).emitFailures reading.failures
  let err := (if c.trace then reading.trace else []) ++ report.text registry
  let exit := if report.log.errorCount = 0 then 0 else 1
  match reading.document? with
  | none => { exit := exit, err := err }
  | some document =>
    if checkFails c.mode document source.text then
      { exit := 2, err := err ++ differs c.source document.text source.text }
    else { exit := exit, out := output c.mode document, err := err }

/-- The outcome of a command with a source file; `contents?` are the bytes of the file, if it can be
opened, and `hasMemory` says whether there is memory for them. -/
def configuredOutcome (c : Configuration) (contents? : Option Bytes) (hasMemory : Bool := true) :
    Outcome :=
  match Loaded.ofFile {} c.encoding c.source contents? hasMemory with
  | (.error d, registry) => { exit := 1, err := d.line registry }
  | (.ok source, registry) =>
    if c.mode = .tokens then tokensOutcome source else readingOutcome c registry source

/-- The path name of the source file that a command with some arguments reads. -/
def source? (arguments : List Bytes) : Option Bytes :=
  match Configuration.ofArguments arguments with
  | .ok c => some c.source
  | .error _ => none

/-- The outcome of a command. `contents?` are the bytes of its source file, if it has one that can
be opened, and `hasMemory` says whether there is memory for them. Without arguments the tool says
how it is used, and fails. -/
def outcome (arguments : List Bytes) (contents? : Option Bytes) (hasMemory : Bool := true) :
    Outcome :=
  if arguments.isEmpty then { exit := 1, err := usage }
  else
    match Configuration.ofArguments arguments with
    | .error h => h.outcome usage version
    | .ok c => configuredOutcome c contents? hasMemory

end Run

end LosslessBasic
