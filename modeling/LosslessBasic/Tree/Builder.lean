import LosslessBasic.Tree.Basic

/-!
# Building trees

A builder takes tokens in their order and puts nodes above them. It keeps one row of pending trees;
an open node owns the pending trees from its first one on, up to the end of the row, and closing it
replaces them by one node. A node may be opened in the past, at a checkpoint, to adopt trees that
are finished already; it never reaches out of the node that is open around it.
-/

namespace LosslessBasic

/-- A place in the row of pending trees. -/
structure Checkpoint where
  /-- The number of pending trees before the place. -/
  index : Nat
  deriving DecidableEq, Repr, Inhabited

/-- A node that is still to be closed. -/
structure OpenNode where
  /-- The kind the node will have. -/
  kind : Kind
  /-- The index of the first pending tree it owns. -/
  first : Nat

/-- A tree under construction. -/
structure Builder where
  /-- The open nodes, the innermost first. -/
  opened : List OpenNode := []
  /-- The trees that no closed node owns yet. -/
  pending : Array Tree := #[]
  /-- The offset just past the last token, with the location of that token. -/
  anchor : Anchor := {}

namespace Builder

/-- The place at the end of the row. -/
def checkpoint (b : Builder) : Checkpoint := ⟨b.pending.size⟩

/-- The number of open nodes. -/
def depth (b : Builder) : Nat := b.opened.length

/-- The offset just past the last token. -/
def position (b : Builder) : UInt32 := b.anchor.offset

/-- Opens a node at the end of the row. -/
def startNode (b : Builder) (kind : Kind) : Builder :=
  { b with opened := { kind := kind, first := b.pending.size } :: b.opened }

/-- The index of the first pending tree that the innermost open node owns. -/
def innermostFirst (b : Builder) : Nat :=
  match b.opened with
  | [] => 0
  | n :: _ => n.first

/-- The index that a checkpoint stands for: within the row and within the innermost open node. -/
def clamp (b : Builder) (cp : Checkpoint) : Nat :=
  max b.innermostFirst (min cp.index b.pending.size)

/-- Opens a node at a checkpoint. It adopts the trees added since. -/
def startNodeAt (b : Builder) (cp : Checkpoint) (kind : Kind) : Builder :=
  { b with opened := { kind := kind, first := b.clamp cp } :: b.opened }

/-- Adds a token to the row. -/
def token (b : Builder) (t : Token) : Builder :=
  { b with
    pending := b.pending.push (.leaf t)
    anchor := { offset := t.stop, loc := t.loc } }

/-- Closes the innermost open node and gives it; when no node is open, nothing happens. A node that
owns no tree has seen no token since it was opened, so it lies at the place reached. -/
def finishNode (b : Builder) : Option Tree × Builder :=
  match b.opened with
  | [] => (none, b)
  | n :: rest =>
    let owned := (b.pending.extract n.first b.pending.size).toList
    let closed := Tree.above n.kind b.anchor owned
    (some closed, { b with opened := rest, pending := (b.pending.shrink n.first).push closed })

/-- Closes nodes, at most `count` of them. -/
def finishNodes : Nat → Builder → Builder
  | 0, b => b
  | count + 1, b => finishNodes count b.finishNode.2

/-- Closes all open nodes and gives the first pending tree; the row is empty afterwards. -/
def finish (b : Builder) : Option Tree × Builder :=
  let b := finishNodes b.depth b
  (b.pending[0]?, { b with pending := #[] })

end Builder

end LosslessBasic
