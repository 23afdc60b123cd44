import LosslessBasic.Tree.Basic

/-!
# Dumps

The stable text form of a tree: one line a tree, each level two blanks further in, with the kind and
the range of bytes, and with the escaped text of a token.
-/

namespace LosslessBasic.Tree

/-- The kind and range of a tree. -/
def describe (t : Tree) : Bytes := Token.describeRange t.kind t.offset t.stop

/-- The line of a tree without its indentation. -/
def summary : Tree → Bytes
  | leaf t => t.format
  | node k a cs => (node k a cs).describe

/-- The line of a tree at a depth. -/
def dumpLine (depth : Nat) (t : Tree) : Bytes :=
  List.replicate (2 * depth) (Bytes.byte ' ') ++ t.summary ++ [Bytes.lineFeed]

mutual

/-- A tree and everything below it, each with its depth, in pre-order. -/
def outline (depth : Nat) : Tree → List (Nat × Tree)
  | leaf t => [(depth, leaf t)]
  | node k a cs => (depth, node k a cs) :: outlineAll (depth + 1) cs

/-- The same for some trees at one depth. -/
def outlineAll (depth : Nat) : List Tree → List (Nat × Tree)
  | [] => []
  | t :: ts => t.outline depth ++ outlineAll depth ts

end

/-- The lines of a tree. -/
def dump (t : Tree) : Bytes := (t.outline 0).flatMap fun entry => dumpLine entry.1 entry.2

end LosslessBasic.Tree
