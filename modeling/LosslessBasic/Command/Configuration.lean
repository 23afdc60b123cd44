import LosslessBasic.Command.Argument

/-!
# Configurations

The arguments of the command line are taken from left to right. A later mode or encoding stands for
an earlier one. The first argument that cannot be taken decides what becomes of the command, and so
does one that asks for help or for the version.
-/

namespace LosslessBasic

/-- What a command is to do. -/
structure Configuration where
  /-- The path name of the source file. -/
  source : Bytes
  /-- What is written. -/
  mode : Mode := .failures
  /-- The encoding of the source file. -/
  encoding : Encoding := .utf8
  /-- Whether the reading is traced. -/
  trace : Bool := false
  deriving DecidableEq, Repr

/-- Why a command line is refused. -/
inductive Refusal where
  /-- An encoding is not known. -/
  | unknownEncoding (name : Bytes)
  /-- An option is not known. -/
  | unknownOption (argument : Bytes)
  /-- There are two source files. -/
  | severalSources
  /-- An argument is neither an option nor a source file. -/
  | unknownArgument (argument : Bytes)
  /-- There is no source file. -/
  | noSource
  deriving DecidableEq, Repr

/-- What is said of a refusal, behind the word for it. -/
def Refusal.message : Refusal → Bytes
  | unknownEncoding name => Bytes.ofString "unknown encoding: " ++ name
  | unknownOption argument => Bytes.ofString "unknown option: " ++ argument
  | severalSources => Bytes.ofString "multiple source files not supported"
  | unknownArgument argument =>
    Bytes.ofString "unknown argument or file type: " ++ argument ++
      Bytes.ofString "\n       (expected .bas, .cls, .frm or .ctl file)"
  | noSource => Bytes.ofString "no input file specified"

/-- What ends a command before it has a source file to read. -/
inductive Halt where
  /-- The user asks for help. -/
  | help
  /-- The user asks for the version. -/
  | version
  /-- The command line is refused. -/
  | refused (refusal : Refusal)
  deriving DecidableEq, Repr

/-- A configuration that may still lack its source file. -/
structure Draft where
  /-- The path name of the source file. -/
  source? : Option Bytes := none
  /-- What is written. -/
  mode : Mode := .failures
  /-- The encoding of the source file. -/
  encoding : Encoding := .utf8
  /-- Whether the reading is traced. -/
  trace : Bool := false
  deriving DecidableEq, Repr

namespace Draft

/-- The draft after one more argument. -/
def take (d : Draft) (argument : Bytes) : Except Halt Draft :=
  match Argument.ofBytes argument with
  | .help => .error .help
  | .version => .error .version
  | .mode m => .ok { d with mode := m }
  | .trace => .ok { d with trace := true }
  | .encoding e => .ok { d with encoding := e }
  | .unknownEncoding name => .error (.refused (.unknownEncoding name))
  | .unknownOption => .error (.refused (.unknownOption argument))
  | .source =>
    if d.source?.isSome then .error (.refused .severalSources)
    else .ok { d with source? := some argument }
  | .unknown => .error (.refused (.unknownArgument argument))

/-- The draft after some more arguments. -/
def takeAll (d : Draft) : List Bytes → Except Halt Draft
  | [] => .ok d
  | argument :: rest =>
    match d.take argument with
    | .error h => .error h
    | .ok d => d.takeAll rest

/-- The configuration that a draft comes to. -/
def finish (d : Draft) : Except Halt Configuration :=
  match d.source? with
  | none => .error (.refused .noSource)
  | some source =>
    .ok { source := source, mode := d.mode, encoding := d.encoding, trace := d.trace }

end Draft

/-- The configuration that some arguments ask for. -/
def Configuration.ofArguments (arguments : List Bytes) : Except Halt Configuration :=
  match Draft.takeAll {} arguments with
  | .error h => .error h
  | .ok d => d.finish

end LosslessBasic
