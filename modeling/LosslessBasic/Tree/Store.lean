import LosslessBasic.Tree.Path

/-!
# Trees in a store

A tree knows its children, but not what it is a child of. In a store the trees have numbers, in the
order in which they are made, and each of them knows its children and the node above it by their
numbers. Children are made before the node above them. Nothing is above a tree that has just been
made; a node that is made goes through its children and sets itself above each of them.
-/

namespace LosslessBasic

/-- What a store holds of a tree. -/
structure Cell where
  /-- The tree. -/
  tree : Tree
  /-- The numbers of its children. -/
  children : List Nat := []
  /-- The number of the node above it, once there is one. -/
  parent? : Option Nat := none

/-- Trees by number. -/
structure Store where
  /-- The cell of each number. -/
  cells : Array Cell := #[]

namespace Store

/-- The number that the next tree gets. -/
def next (s : Store) : Nat := s.cells.size

/-- The tree of a given number. -/
def tree? (s : Store) (number : Nat) : Option Tree := s.cells[number]?.map Cell.tree

/-- The number of the node above the tree of a given number. -/
def parent? (s : Store) (number : Nat) : Option Nat := s.cells[number]?.bind Cell.parent?

/-- The number of the child of a given index. -/
def childAt? (s : Store) (number index : Nat) : Option Nat :=
  s.cells[number]?.bind fun c => c.children[index]?

/-- The number at the end of a path from the tree of a given number on. -/
def follow? (s : Store) (number : Nat) : Path → Option Nat
  | [] => some number
  | index :: path => (s.childAt? number index).bind fun child => s.follow? child path

/-- A token is made. -/
def token (s : Store) (t : Token) : Nat × Store :=
  (s.next, ⟨s.cells.push { tree := .leaf t }⟩)

/-- The tree of the number `parent` is set above the one of the number `child`. -/
def adopt (parent : Nat) (s : Store) (child : Nat) : Store :=
  ⟨s.cells.modify child fun c => { c with parent? := some parent }⟩

/-- A node is made of children that are in the store, and set above them. -/
def composite (s : Store) (t : Tree) (children : List Nat) : Nat × Store :=
  (s.next, children.foldl (adopt s.next) ⟨s.cells.push { tree := t, children := children }⟩)

mutual

/-- A tree is made, the children first. -/
def put (s : Store) : Tree → Nat × Store
  | .leaf t => s.token t
  | .node k a cs =>
    let (children, s) := s.putAll cs
    s.composite (.node k a cs) children

/-- Some trees are made, from left to right. -/
def putAll (s : Store) : List Tree → List Nat × Store
  | [] => ([], s)
  | t :: ts =>
    let (number, s) := s.put t
    let (numbers, s) := s.putAll ts
    (number :: numbers, s)

end

end Store

/-- A tree with everything below it in a store of its own, and its number. -/
def Tree.stored (t : Tree) : Nat × Store := Store.put {} t

end LosslessBasic
