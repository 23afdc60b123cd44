import LosslessBasic.Token

/-!
# Concrete trees

A tree has the tokens of a source as its leaves, in their order, and composite nodes above them. A
node lies where its children lie; a node without children lies, empty, at the place it was opened
at. Functions on trees come in pairs, one for a tree and one for a list of trees.
-/

namespace LosslessBasic

/-- The place of a byte. -/
structure Anchor where
  /-- The offset of the byte. -/
  offset : UInt32 := 0
  /-- The location of the byte. -/
  loc : Location := {}
  deriving DecidableEq, Repr, Inhabited

/-- A concrete tree. -/
inductive Tree where
  /-- A token. -/
  | leaf (token : Token)
  /-- A composite node. The anchor says where it lies; a node with children lies where the first
  of them does. -/
  | node (kind : Kind) (anchor : Anchor) (children : List Tree)
  deriving Repr

namespace Tree

instance : Inhabited Tree := ⟨.leaf {}⟩

mutual

/-- Equality of trees is decidable. -/
def decEq : (a b : Tree) → Decidable (a = b)
  | .leaf s, .leaf t =>
    if h : s = t then isTrue (h ▸ rfl) else isFalse fun e => h (by cases e; rfl)
  | .leaf _, .node .. => isFalse nofun
  | .node .., .leaf _ => isFalse nofun
  | .node k p as, .node l q bs =>
    if hk : k = l then
      if hp : p = q then
        match decEqAll as bs with
        | isTrue h => isTrue (by rw [hk, hp, h])
        | isFalse h => isFalse fun e => h (by cases e; rfl)
      else isFalse fun e => hp (by cases e; rfl)
    else isFalse fun e => hk (by cases e; rfl)

/-- Equality of lists of trees is decidable. -/
def decEqAll : (as bs : List Tree) → Decidable (as = bs)
  | [], [] => isTrue rfl
  | [], _ :: _ => isFalse nofun
  | _ :: _, [] => isFalse nofun
  | a :: as, b :: bs =>
    match decEq a b with
    | isTrue h =>
      match decEqAll as bs with
      | isTrue hs => isTrue (by rw [h, hs])
      | isFalse hs => isFalse fun e => hs (by cases e; rfl)
    | isFalse h => isFalse fun e => h (by cases e; rfl)

end

instance : DecidableEq Tree := decEq

/-- The kind of the token or node on top. -/
def kind : Tree → Kind
  | leaf t => t.kind
  | node k _ _ => k

/-- Whether the tree is a token. -/
def isToken : Tree → Bool
  | leaf _ => true
  | node .. => false

/-- The children of the node on top; a token has none. -/
def children : Tree → List Tree
  | leaf _ => []
  | node _ _ cs => cs

/-- The bytes of a token; a node has none of its own. -/
def tokenText : Tree → Bytes
  | leaf t => t.text
  | node .. => []

/-- The place of the first byte of a tree. -/
def anchor : Tree → Anchor
  | leaf t => { offset := t.offset, loc := t.loc }
  | node _ a [] => a
  | node _ _ (c :: _) => c.anchor

/-- A node above some trees. It lies where the first of them lies, or at `bare` when there are
none. -/
def above (kind : Kind) (bare : Anchor) : List Tree → Tree
  | [] => node kind bare []
  | c :: cs => node kind c.anchor (c :: cs)

/-- The offset of the first byte of a tree. -/
def offset (t : Tree) : UInt32 := t.anchor.offset

/-- The location of the first byte of a tree. -/
def loc (t : Tree) : Location := t.anchor.loc

mutual

/-- The offset just past the last byte of a tree. -/
def stop : Tree → UInt32
  | leaf t => t.stop
  | node _ a cs => stopAll a.offset cs

/-- The offset just past the last of some trees, or `none` of them at the offset `bare`. -/
def stopAll (bare : UInt32) : List Tree → UInt32
  | [] => bare
  | [t] => t.stop
  | _ :: ts => stopAll bare ts

end

/-- The number of bytes of a tree. -/
def length (t : Tree) : UInt32 := t.stop - t.offset

/-- The bytes a tree covers. -/
def span (t : Tree) : Span := { offset := t.offset, length := t.length }

mutual

/-- The tokens of a tree, in order. -/
def leaves : Tree → List Token
  | leaf t => [t]
  | node _ _ cs => leavesAll cs

/-- The tokens of some trees, in order. -/
def leavesAll : List Tree → List Token
  | [] => []
  | t :: ts => t.leaves ++ leavesAll ts

end

mutual

/-- The bytes of all tokens of a tree, in order. -/
def text : Tree → Bytes
  | leaf t => t.text
  | node _ _ cs => textAll cs

/-- The bytes of all tokens of some trees, in order. -/
def textAll : List Tree → Bytes
  | [] => []
  | t :: ts => t.text ++ textAll ts

end

end Tree

end LosslessBasic
