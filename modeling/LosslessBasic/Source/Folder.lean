import LosslessBasic.Source.PathName

/-!
# Folders

A folder with files and folders in it, held in memory. A path name is followed step by step: it has
to be in a folder before each step, and a file has to lie where the last step ends. What lies
outside of the folder cannot be reached.
-/

namespace LosslessBasic

/-- A folder, as the files in it and in the folders below it. -/
structure Folder where
  /-- Each file with the names that lead down to it. -/
  files : List (List Bytes × Bytes) := []
  deriving DecidableEq, Repr

namespace Folder

/-- The names a path name goes down by. -/
def downNames (path : Bytes) : List Bytes :=
  (PathName.ofBytes path).steps.filterMap fun
    | .down name => some name
    | _ => none

/-- The folder with the given files; the folders on the way to a file are there as well. -/
def ofFiles (files : List (Bytes × Bytes)) : Folder :=
  { files := files.map fun f => (downNames f.1, f.2) }

/-- Whether some names lead down to a folder; no names lead to the folder itself. -/
def hasFolder (f : Folder) (names : List Bytes) : Bool :=
  names.isEmpty || f.files.any fun e => names.isPrefixOf e.1 && names.length < e.1.length

/-- The names that lead to where a walk ends that starts at `here`, the last name first. -/
def follow? (f : Folder) (here : List Bytes) : List PathStep → Option (List Bytes)
  | [] => some here
  | step :: steps =>
    if f.hasFolder here.reverse then
      match step, here with
      | .stay, _ => f.follow? here steps
      | .up, [] => none
      | .up, _ :: above => f.follow? above steps
      | .down name, _ => f.follow? (name :: here) steps
    else none

/-- The bytes of the file a path name leads to. A path name ends in front of its first zero byte. -/
def read? (f : Folder) (path : Bytes) : Option Bytes :=
  let p := PathName.ofBytes (path.takeWhile (· != 0))
  if p.absolute then none
  else (f.follow? [] p.steps).bind fun names => f.files.lookup names.reverse

end Folder

end LosslessBasic
