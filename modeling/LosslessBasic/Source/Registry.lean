import LosslessBasic.Source.PathName

/-!
# Registries of source files

A registry gives every source file a number, from one up in the order of arrival. Files are told
apart by the normal spelling of their path names, so that a file keeps its number however it is
spelled. The number zero stands for no file.
-/

namespace LosslessBasic

/-- The source files that are known by number. -/
structure Registry where
  /-- The normal spellings of the path names; the first one has the number one. -/
  paths : List Bytes := []
  /-- The number of the next file. It is kept in a wider word than numbers are, so that it shows
  when there are no more of them. -/
  next : UInt64 := 1
  /-- The number of each file, by the normal spelling of its path name. -/
  numbers : List (Bytes × UInt32) := []
  deriving DecidableEq, Repr, Inhabited

namespace Registry

/-- What is said when there are no more numbers. -/
def exhausted : Bytes := Bytes.ofString "source manager exhausted file identifier space"

/-- The number of files. -/
def size (r : Registry) : Nat := r.paths.length

/-- The registry with a new file, which gets the next number. The path name is in normal
spelling. -/
def append (r : Registry) (path : Bytes) : Registry :=
  { paths := r.paths ++ [path]
    next := r.next + 1
    numbers := (path, r.next.toUInt32) :: r.numbers }

/-- The number of a file with the registry that knows it. A file that is known already keeps its
number. When there are no more numbers, a new file stays unknown and gets the number that stands for
no file. -/
def add (r : Registry) (path : Bytes) : UInt32 × Registry :=
  let path := PathName.normalBytes path
  match r.numbers.lookup path with
  | some file => (file, r)
  | none =>
    if 0xFFFFFFFF < r.next then (0, r) else (r.next.toUInt32, r.append path)

/-- The path name of the file of a given number; nothing for a number that stands for no file. -/
def path (r : Registry) (file : UInt32) : Bytes :=
  if file = 0 then [] else r.paths[file.toNat - 1]?.getD []

end Registry

end LosslessBasic
