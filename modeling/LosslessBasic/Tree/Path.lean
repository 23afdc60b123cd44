import LosslessBasic.Tree.Query

/-!
# Paths

A path names a tree within a tree by the indices of the children to go down to. It stands where the
place of a tree matters and not only its content.
-/

namespace LosslessBasic

/-- The indices of the children to go down to. -/
abbrev Path := List Nat

namespace Tree

/-- The tree at the end of a path. -/
def at? (t : Tree) : Path → Option Tree
  | [] => some t
  | index :: path =>
    match t.childAt? index with
    | none => none
    | some c => c.at? path

/-- The path that is one step shorter; the path to the top has no step to leave out. -/
def parentPath? : Path → Option Path
  | [] => none
  | path => some path.dropLast

mutual

/-- The path of the first tree, in pre-order, that equals `target`. -/
def pathTo? (target : Tree) : Tree → Option Path
  | leaf t => if leaf t = target then some [] else none
  | node k a cs => if node k a cs = target then some [] else pathToIn? target 0 cs

/-- The same among the children from the index `index` on. -/
def pathToIn? (target : Tree) (index : Nat) : List Tree → Option Path
  | [] => none
  | t :: ts =>
    match pathTo? target t with
    | some path => some (index :: path)
    | none => pathToIn? target (index + 1) ts

end

end Tree

end LosslessBasic
