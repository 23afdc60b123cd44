import LosslessBasic.Tree.Basic

/-!
# Asking trees

Searches among the children of a node and among everything below it. Deep searches go in pre-order,
a node before what is below it and siblings from left to right.
-/

namespace LosslessBasic.Tree

/-! ## What a tree is -/

/-- Whether the tree is a token without meaning for the grammar. -/
def isTrivia (t : Tree) : Bool := t.isToken && t.kind.isTrivia

/-- Whether the tree is a comment token. -/
def isComment (t : Tree) : Bool := t.isToken && t.kind.isComment

/-- Whether the tree is of the kind of a run of blanks. -/
def isWhitespace (t : Tree) : Bool := t.kind == .trivia .whitespace

/-- Whether the tree is of the kind of a line break. -/
def isNewline (t : Tree) : Bool := t.kind == .trivia .newline

/-- Whether the tree is anything but a token without meaning for the grammar. -/
def isSignificant (t : Tree) : Bool := !t.isTrivia

/-! ## Children -/

/-- The number of children. -/
def childCount (t : Tree) : Nat := t.children.length

/-- The child of a given index. -/
def childAt? (t : Tree) (index : Nat) : Option Tree := t.children[index]?

/-- The first child. -/
def firstChild? (t : Tree) : Option Tree := t.children.head?

/-- The last child. -/
def lastChild? (t : Tree) : Option Tree := t.children.getLast?

/-- The children that mean something to the grammar. -/
def significantChildren (t : Tree) : List Tree := t.children.filter isSignificant

/-- The children of a kind. -/
def childrenOfKind (t : Tree) (k : Kind) : List Tree := t.children.filter fun c => c.kind == k

/-- The first child of a kind. -/
def firstChildOfKind? (t : Tree) (k : Kind) : Option Tree :=
  t.children.find? fun c => c.kind == k

/-! ## Everything below -/

mutual

/-- Everything below a tree, without the tree itself. -/
def descendants : Tree → List Tree
  | leaf _ => []
  | node _ _ cs => descendantsAll cs

/-- Some trees and everything below them. -/
def descendantsAll : List Tree → List Tree
  | [] => []
  | t :: ts => t :: (t.descendants ++ descendantsAll ts)

end

mutual

/-- The trees of a kind at and below a tree. -/
def findAll (k : Kind) : Tree → List Tree
  | leaf t => if t.kind == k then [leaf t] else []
  | node l a cs => if l == k then node l a cs :: findAllIn k cs else findAllIn k cs

/-- The trees of a kind at and below some trees. -/
def findAllIn (k : Kind) : List Tree → List Tree
  | [] => []
  | t :: ts => t.findAll k ++ findAllIn k ts

end

mutual

/-- The first tree of a kind at or below a tree. -/
def find? (k : Kind) : Tree → Option Tree
  | leaf t => if t.kind == k then some (leaf t) else none
  | node l a cs => if l == k then some (node l a cs) else findIn? k cs

/-- The first tree of a kind at or below some trees. -/
def findIn? (k : Kind) : List Tree → Option Tree
  | [] => none
  | t :: ts =>
    match t.find? k with
    | some hit => some hit
    | none => findIn? k ts

end

/-- Whether a tree of a kind is at or below a tree. -/
def containsKind (t : Tree) (k : Kind) : Bool := (t.find? k).isSome

mutual

/-- The token of a tree that covers the byte at an offset. -/
def tokenAt? (offset : UInt32) : Tree → Option Tree
  | leaf t => if t.span.contains offset then some (leaf t) else none
  | node k a cs =>
    if (node k a cs).span.contains offset then tokenAtIn? offset cs else none

/-- The token that covers the byte at an offset, in the first of some trees that covers it. -/
def tokenAtIn? (offset : UInt32) : List Tree → Option Tree
  | [] => none
  | t :: ts => if t.span.contains offset then t.tokenAt? offset else tokenAtIn? offset ts

end

end LosslessBasic.Tree
