import LosslessBasic.Diagnostic
import LosslessBasic.Text.Encoding

/-!
# Loading sources

A file that is read gets a number and is decoded. One that is refused, or for which there is no
number, leaves no trace but a diagnostic: it is refused if it cannot be opened, if it is larger than
a source may be, and if there is no memory for it.
-/

namespace LosslessBasic

/-- A source file in memory. -/
structure Loaded where
  /-- The number of the file. -/
  file : UInt32
  /-- Its text. Of a file in UTF-8 these are its bytes, whatever they are. -/
  text : Bytes
  deriving DecidableEq, Repr

namespace Loaded

/-- Why a file is not read. -/
inductive Refusal where
  /-- It cannot be opened. -/
  | unreadable
  /-- It has more bytes than a source may have. -/
  | tooLarge
  /-- There is no memory for its bytes. -/
  | outOfMemory
  deriving DecidableEq, Repr

namespace Refusal

/-- What is said of a file that is refused. -/
def message (path : Bytes) : Refusal → Bytes
  | unreadable => Bytes.ofString "unable to open " ++ path
  | tooLarge =>
    Bytes.ofString "source file too large: " ++ path ++ Bytes.ofString " (limit: 256 MB)"
  | outOfMemory => Bytes.ofString "out of memory reading " ++ path

/-- The diagnostic of a file that is refused. It stands at no place in a source. -/
def diagnostic (path : Bytes) (r : Refusal) : Diagnostic := .ofError {} (r.message path)

end Refusal

/-- The most bytes that a source file may have. -/
def sizeLimit : Nat := 256 * 1024 * 1024

/-- The bytes of a file, unless it is refused. `contents?` are its bytes, if it can be opened; they
are counted before they are read into memory, and `hasMemory` says whether there is enough of it. -/
def read (contents? : Option Bytes) (hasMemory : Bool) : Except Refusal Bytes :=
  match contents? with
  | none => .error .unreadable
  | some contents =>
    if sizeLimit < contents.length then .error .tooLarge
    else if hasMemory then .ok contents
    else .error .outOfMemory

/-- The file of a given path name with the registry that knows it. A file is registered once it has
been read. -/
def ofFile (registry : Registry) (encoding : Encoding) (path : Bytes) (contents? : Option Bytes)
    (hasMemory : Bool := true) : Except Diagnostic Loaded × Registry :=
  match read contents? hasMemory with
  | .error refusal => (.error (refusal.diagnostic path), registry)
  | .ok contents =>
    let (file, registry) := registry.add path
    if file = 0 then (.error (.ofError {} Registry.exhausted), registry)
    else (.ok { file := file, text := encoding.decode contents }, registry)

variable {registry : Registry} {encoding : Encoding} {path : Bytes} {contents? : Option Bytes}
  {hasMemory : Bool}

/-- A file that cannot be read is not registered. -/
theorem ofFile_of_error {refusal : Refusal} (h : read contents? hasMemory = .error refusal) :
    ofFile registry encoding path contents? hasMemory =
      (.error (refusal.diagnostic path), registry) := by
  rw [ofFile, h]

/-- A file that is read is registered, unless there is no number left, and then decoded. -/
theorem ofFile_of_ok {contents : Bytes} (h : read contents? hasMemory = .ok contents) :
    ofFile registry encoding path contents? hasMemory =
      let (file, registry) := registry.add path
      if file = 0 then (.error (.ofError {} Registry.exhausted), registry)
      else (.ok { file := file, text := encoding.decode contents }, registry) := by
  rw [ofFile, h]

end Loaded

end LosslessBasic
