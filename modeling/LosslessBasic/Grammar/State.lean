import LosslessBasic.Token.Stream
import LosslessBasic.Trace
import LosslessBasic.Tree.Builder

/-!
# Productions

A production is a step of the grammar: it moves tokens from the stream into the tree under
construction, in their order, and may report failures on the way. Productions are put together from
the few moves of this module:

* `shift` moves one token, and nothing else moves any;
* `within`, `composite` and `compositeFrom` put a node around what a production moves, `inBlock`,
  `inWith` and `onOneLine` set the context it moves it in, and each of them undoes on leaving what
  it did on entering;
* `repeatWhile` and `iterate` repeat a production. The tokens ahead bound the number of passes,
  because a pass that is not the last one moves at least one token.
-/

namespace LosslessBasic.Grammar

/-- What separates the next statement from the one before. -/
inductive Separator where
  /-- Nothing yet: a statement has just ended. -/
  | none
  /-- A colon. -/
  | colon
  /-- A line break, or the beginning of the source. -/
  | lineBreak
  deriving DecidableEq, Repr

/-- Why a list of statements has ended. -/
inductive Stop where
  /-- The closer of the innermost block is next, or the words that end its body. -/
  | ownCloser
  /-- The closer of a block further out is next. -/
  | enclosingCloser
  /-- The header of another procedure is next. -/
  | procedureHeader
  /-- A `Next` further in has closed this loop, too. -/
  | closedByNext
  /-- The line of a single-line `If` ends. -/
  | endOfLine
  /-- The source ends. -/
  | endOfInput
  deriving DecidableEq, Repr

/-- What productions work on. -/
structure State where
  /-- The tokens, with the next one to move at the cursor. -/
  stream : TokenStream
  /-- The tree under construction. -/
  builder : Builder := {}
  /-- The failures reported so far, in their order. -/
  failures : Array Failure := #[]
  /-- Whether the current statement has failed already. -/
  recovering : Bool := false
  /-- The number of single-line `If` statements around. -/
  lineMode : Nat := 0
  /-- The number of loops that a `Next` further in is still to close. -/
  pendingNext : Nat := 0
  /-- The open blocks, the innermost first. -/
  blocks : List Block := []
  /-- The header of each open `With`, where it has one, the innermost first. -/
  withTargets : List (Option Tree) := []
  /-- The accesses that start with a dot or bang, each with the header it refers to. -/
  implicitTargets : Array (Tree × Tree) := #[]
  /-- What separates the next statement from the one before. -/
  lastSeparator : Separator := .lineBreak
  /-- The events so far, in their order. -/
  log : Array Event := #[]

/-- A step of the grammar that gives an `α`. -/
abbrev Production (α : Type) := StateM State α

/-! ## Looking ahead -/

/-- What a function says of the tokens ahead. -/
def look {α : Type} (f : TokenStream → α) : Production α := do return f (← get).stream

/-- The token at the cursor. -/
def current : Production Token := look (·.current)

/-- The kind of the token at the cursor. -/
def currentKind : Production Kind := look (·.current.kind)

/-- The next token that is not inline trivia. -/
def next : Production Token := look (·.peekSignificant 0)

/-- The kind of that token. -/
def nextKind : Production Kind := look fun s => (s.peekSignificant 0).kind

/-- The kind of the token after that, inline trivia left out. -/
def secondKind : Production Kind := look fun s => (s.peekSignificant 1).kind

/-- Whether the token at the cursor is of a kind. -/
def atCurrent (k : Kind) : Production Bool := look fun s => s.current.kind == k

/-- Whether the next token that is not inline trivia is of a kind. -/
def atNext (k : Kind) : Production Bool := look fun s => (s.peekSignificant 0).kind == k

/-! ## Repeating -/

/-- What a pass of a loop says: to go on, or to leave with a result. -/
inductive Pass (α β : Type) where
  | again (a : α)
  | done (b : β)

/-- Makes at most `passes` passes, starting from `a`; when they do not suffice, `exhausted` gives
the result. -/
def iterateUpTo {α β : Type} (exhausted : α → β) (pass : α → Production (Pass α β)) :
    Nat → α → Production β
  | 0, a => pure (exhausted a)
  | passes + 1, a => do
    match ← pass a with
    | .again a => iterateUpTo exhausted pass passes a
    | .done b => pure b

/-- Makes passes until one leaves. -/
def iterate {α β : Type} (exhausted : α → β) (pass : α → Production (Pass α β)) (a : α) :
    Production β := do
  iterateUpTo exhausted pass ((← look (·.remaining)) + 1) a

/-- Makes at most `passes` passes of `body`, as long as `test` holds. -/
def repeatWhileUpTo (test : Production Bool) (body : Production Unit) : Nat → Production Unit
  | 0 => pure ()
  | passes + 1 => do
    if ← test then
      body
      repeatWhileUpTo test body passes

/-- Makes passes of `body` as long as `test` holds. -/
def repeatWhile (test : Production Bool) (body : Production Unit) : Production Unit := do
  repeatWhileUpTo test body ((← look (·.remaining)) + 1)

/-! ## Moving tokens -/

/-- Moves the token at the cursor into the tree. The end marker stays where it is. -/
def shift : Production Unit :=
  modify fun s =>
    if s.stream.isAtEnd then s
    else { s with builder := s.builder.token s.stream.current, stream := s.stream.advance }

/-- Moves inline trivia into the tree. -/
def skipBlanks : Production Unit := repeatWhile (look (·.current.kind.isInlineTrivia)) shift

/-- Moves the next token that is not inline trivia, and the trivia before it. -/
def shiftNext : Production Unit := do
  skipBlanks
  shift

/-- Moves the next token if it is of a kind, and says whether it was. -/
def accept (k : Kind) : Production Bool := do
  if ← atNext k then
    shiftNext
    return true
  return false

/-! ## Nodes and contexts -/

/-- The place in the tree that has been reached. -/
def checkpoint : Production Checkpoint := do return (← get).builder.checkpoint

/-- Opens a node. -/
def openNode (k : NodeKind) : Production Unit :=
  modify fun s => { s with builder := s.builder.startNode (.node k) }

/-- Opens a node that adopts what was moved since a checkpoint. -/
def openNodeAt (cp : Checkpoint) (k : NodeKind) : Production Unit :=
  modify fun s => { s with builder := s.builder.startNodeAt cp (.node k) }

/-- Closes the innermost node and gives it. -/
def closeNode : Production (Option Tree) :=
  modifyGet fun s =>
    let (closed, builder) := s.builder.finishNode
    (closed, { s with builder := builder })

/-- A production with a node around what it moves. -/
def within {α : Type} (k : NodeKind) (body : Production α) : Production α := do
  openNode k
  let a ← body
  let _ ← closeNode
  return a

/-- A node around what a production moves. -/
def composite (k : NodeKind) (body : Production Unit) : Production (Option Tree) := do
  openNode k
  body
  closeNode

/-- A node around what was moved since a checkpoint and what a production moves. -/
def compositeFrom (cp : Checkpoint) (k : NodeKind) (body : Production Unit) :
    Production (Option Tree) := do
  openNodeAt cp k
  body
  closeNode

/-- A production in a block. -/
def inBlock {α : Type} (block : Block) (body : Production α) : Production α := do
  modify fun s => { s with blocks := block :: s.blocks }
  let a ← body
  modify fun s => { s with blocks := s.blocks.tail }
  return a

/-- A production in the body of a `With` with the given header. -/
def inWith {α : Type} (target : Option Tree) (body : Production α) : Production α := do
  modify fun s => { s with withTargets := target :: s.withTargets }
  let a ← body
  modify fun s => { s with withTargets := s.withTargets.tail }
  return a

/-- A production in a single-line `If`. -/
def onOneLine {α : Type} (body : Production α) : Production α := do
  modify fun s => { s with lineMode := s.lineMode + 1 }
  let a ← body
  modify fun s => { s with lineMode := s.lineMode - 1 }
  return a

/-- Whether a block of a kind is open. -/
def blockIsOpen (block : Block) : Production Bool := do return (← get).blocks.contains block

/-- Whether a procedure is open. -/
def insideProcedure : Production Bool := do return (← get).blocks.any (·.isProcedure)

/-! ## Notes and failures -/

/-- Traces that something is begun at a token. -/
def note (activity : Activity) (t : Token) : Production Unit :=
  modify fun s => { s with log := s.log.push (.began activity t) }

/-- Sets whether the current statement has failed already. -/
def setRecovering (recovering : Bool) : Production Unit :=
  modify fun s => { s with recovering := recovering }

/-- Sets what separates the next statement from the one before. -/
def setSeparator (separator : Separator) : Production Unit :=
  modify fun s => { s with lastSeparator := separator }

/-- Sets the number of loops that a `Next` further in is still to close. -/
def setPendingNext (loops : Nat) : Production Unit :=
  modify fun s => { s with pendingNext := loops }

/-- Notes which header an access refers to by its leading dot or bang. -/
def addTarget (access header : Tree) : Production Unit :=
  modify fun s => { s with implicitTargets := s.implicitTargets.push (access, header) }

/-- Reports a problem at a token. -/
def report (problem : Problem) (t : Token) : Production Unit :=
  let failure := Failure.atToken problem t
  modify fun s =>
    { s with failures := s.failures.push failure, log := s.log.push (.failed failure) }

/-- Reports a problem at a token unless the statement has failed already; from now on it has. -/
def fail (problem : Problem) (t : Token) : Production Unit := do
  unless (← get).recovering do report problem t
  setRecovering true

/-- Reports that something else was asked for than the next token, unless the statement has failed
already. -/
def failExpected (wanted : Wanted) : Production Unit := do
  let got ← next
  fail (.expected wanted got) got

/-- Asks for a token of a kind and says whether it was there. -/
def expect (k : Kind) : Production Bool := do
  if ← accept k then
    return true
  failExpected (.token k)
  return false

end LosslessBasic.Grammar
