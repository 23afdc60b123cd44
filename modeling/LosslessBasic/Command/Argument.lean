import LosslessBasic.Text.Encoding

/-!
# Arguments

What a single argument of the command line asks for. An argument that starts with a hyphen is an
option unless it is the hyphen alone; options are spelled exactly, in lower case. Any other argument
has to be the path name of a source file, which is known by its extension in any case.
-/

namespace LosslessBasic

/-- What is written once a source has been read. -/
inductive Mode where
  /-- The failures and nothing else. -/
  | failures
  /-- The tree. -/
  | tree
  /-- The tokens; the source is not read any further than that. -/
  | tokens
  /-- The text of the tree. -/
  | text
  /-- Nothing, if the text of the tree is the source. -/
  | check
  deriving DecidableEq, Repr

/-- An argument taken apart at its first equals sign. -/
structure Assignment where
  /-- What stands in front of the sign, or the whole argument. -/
  name : Bytes
  /-- What stands behind the sign, if there is one. -/
  value? : Option Bytes
  deriving DecidableEq, Repr

/-- The byte between a name and its value. -/
def Assignment.sign : UInt8 := Bytes.byte '='

/-- The parts of an argument. -/
def Assignment.ofBytes (argument : Bytes) : Assignment :=
  { name := argument.takeWhile (· != sign)
    value? := (argument.dropWhile (· != sign)).tail? }

/-- What an argument asks for. -/
inductive Argument where
  /-- To show how the tool is used. -/
  | help
  /-- To show the version of the tool. -/
  | version
  /-- To write something else. -/
  | mode (mode : Mode)
  /-- To trace the reading. -/
  | trace
  /-- To read the source in an encoding. -/
  | encoding (encoding : Encoding)
  /-- To read the source in an encoding that is not known. -/
  | unknownEncoding (name : Bytes)
  /-- An option that is not known. -/
  | unknownOption
  /-- To read a source file. -/
  | source
  /-- Nothing of the above. -/
  | unknown
  deriving DecidableEq, Repr

namespace Argument

/-- Whether an argument is an option. -/
def isOption (argument : Bytes) : Bool :=
  1 < argument.length && argument.head? == some (Bytes.byte '-')

/-- The extensions of source files. -/
def extensions : List Bytes := [".bas", ".cls", ".frm", ".ctl"].map Bytes.ofString

/-- Whether an argument ends in the extension of a source file, with something in front of it. -/
def hasExtension (argument : Bytes) : Bool :=
  extensions.any fun e =>
    e.length < argument.length &&
      Ascii.equalIgnoringCase (argument.drop (argument.length - e.length)) e

/-- The options that stand for themselves. -/
def flags : List (Bytes × Argument) :=
  [("-h", help), ("--help", help), ("--version", version), ("--tree", mode .tree),
    ("--tokens", mode .tokens), ("--text", mode .text), ("--check", mode .check),
    ("--trace", trace)].map fun f => (Bytes.ofString f.1, f.2)

/-- The encoding an argument asks for, by its name. -/
def encodingName? (argument : Bytes) : Option Bytes :=
  let a := Assignment.ofBytes argument
  if a.name == Bytes.ofString "--encoding" then a.value? else none

/-- The meaning of an argument that is no flag. -/
def ofValue (argument : Bytes) : Argument :=
  match encodingName? argument with
  | some name =>
    match Encoding.ofName? name with
    | some e => encoding e
    | none => unknownEncoding name
  | none =>
    if isOption argument then unknownOption
    else if hasExtension argument then source
    else unknown

/-- The meaning of an argument. -/
def ofBytes (argument : Bytes) : Argument := (flags.lookup argument).getD (ofValue argument)

end Argument

end LosslessBasic
