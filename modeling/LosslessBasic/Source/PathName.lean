import LosslessBasic.Text.Bytes

/-!
# Path names

A path name is read as steps through folders: stay, go up, go down by a name. Two path names that
lead the same way by their spelling alone have one normal form, in which no step down is undone by a
later step up, no step stays, and one slash stands between two names.
-/

namespace LosslessBasic

/-- A step through folders. -/
inductive PathStep where
  /-- Stay in the folder. -/
  | stay
  /-- Go to the folder above. -/
  | up
  /-- Go down by a name. -/
  | down (name : Bytes)
  deriving DecidableEq, Repr

namespace PathStep

/-- The byte between two steps. -/
def slash : UInt8 := Bytes.byte '/'

/-- The name of the folder above. -/
def above : Bytes := Bytes.ofString ".."

/-- The step that is spelled by some bytes without a slash. -/
def ofBytes (name : Bytes) : PathStep :=
  if name.isEmpty || name == Bytes.ofString "." then stay
  else if name == above then up
  else down name

/-- Whether the step goes down. -/
def isDown : PathStep → Bool
  | down _ => true
  | _ => false

end PathStep

/-- A path name. -/
structure PathName where
  /-- Whether it starts at the root of all folders. -/
  absolute : Bool
  /-- The steps it goes. -/
  steps : List PathStep
  deriving DecidableEq, Repr

namespace PathName

/-- The pieces of some bytes between slashes; there is one more than there are slashes. -/
def pieces : Bytes → List Bytes
  | [] => [[]]
  | c :: rest =>
    if c == PathStep.slash then [] :: pieces rest
    else
      match pieces rest with
      | [] => [[c]]
      | piece :: others => (c :: piece) :: others

/-- The path name that is spelled by some bytes. -/
def ofBytes (bytes : Bytes) : PathName :=
  { absolute := bytes.head? == some PathStep.slash
    steps := (pieces bytes).map PathStep.ofBytes }

/-- What a walk comes to: how often it goes up before it goes down for good, and the names it goes
down by, the last one first. -/
structure Reduced where
  /-- The number of steps up that undo no step down. -/
  ups : Nat := 0
  /-- The names that no step up undoes, the last one first. -/
  names : List Bytes := []
  deriving DecidableEq, Repr

/-- A reduced walk with one more step. -/
def Reduced.push (r : Reduced) : PathStep → Reduced
  | .stay => r
  | .down name => { r with names := name :: r.names }
  | .up =>
    match r.names with
    | [] => { r with ups := r.ups + 1 }
    | _ :: names => { r with names := names }

/-- The walk of a path name, reduced. -/
def reduced (p : PathName) : Reduced := p.steps.foldl Reduced.push {}

/-- Whether the path name ends in the folder it has gone down to, and not in something within. -/
def namesFolder (p : PathName) : Bool :=
  !(p.steps.getLast?.any PathStep.isDown) && !p.reduced.names.isEmpty

/-- The normal form of a path name. The root has no folder above; a slash at the end is kept where a
folder is named by it. -/
def normal (p : PathName) : Bytes :=
  let r := p.reduced
  let ups := List.replicate (if p.absolute then 0 else r.ups) PathStep.above
  let body := List.intercalate [PathStep.slash] (ups ++ r.names.reverse)
  let text := (if p.absolute then [PathStep.slash] else []) ++ body ++
    (if p.namesFolder then [PathStep.slash] else [])
  if text.isEmpty then Bytes.ofString "." else text

/-- The normal spelling of a path name. No bytes at all stay as they are. -/
def normalBytes (bytes : Bytes) : Bytes :=
  if bytes.isEmpty then [] else (ofBytes bytes).normal

end PathName

end LosslessBasic
