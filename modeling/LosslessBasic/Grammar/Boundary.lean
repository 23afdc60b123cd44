import LosslessBasic.Grammar.State

/-!
# The ends of statements

A statement ends before a line break, a colon, a comment or the end of the source, and within a
single-line `If` also before `Else`. `finishStatement` brings a statement there: tokens left over
are reported and moved under a node of their own, and the line break goes to the statement it ends.
-/

namespace LosslessBasic.Grammar

/-- Whether a token of a kind ends the statement before it. -/
def endsStatement (k : Kind) (lineMode : Nat) : Bool :=
  match k with
  | .trivia .newline | .trivia .endOfLineComment | .trivia .remComment => true
  | .lexeme .colon | .lexeme .endOfFile => true
  | .keyword .else_ => 0 < lineMode
  | _ => false

/-- Whether the statement ends before the next token. -/
def atStatementEnd : Production Bool := do return endsStatement (← nextKind) (← get).lineMode

/-- Whether the statement goes on with the next token. -/
def withinStatement : Production Bool := do return !(← atStatementEnd)

/-- Moves the rest of the statement. -/
def shiftRest : Production Unit := repeatWhile withinStatement shiftNext

/-- Moves the rest of the statement under a node of unknown meaning. -/
def recover : Production Unit := do
  if ← withinStatement then
    note .recovery (← next)
    skipBlanks
    within .unknown shiftRest

/-- Moves a line break that ends the statement, and a comment before it. -/
def shiftLineBreak : Production Unit := do
  if (← currentKind).isComment then shift
  if ← atCurrent (.trivia .newline) then
    shift
    setSeparator .lineBreak

/-- Ends a statement: reports what is left over of it, unless it was reported when it was read or
the statement has failed already, and moves up to the end of the statement. In a single-line `If`
the line break is left to the `If`. -/
def finishStatement : Production Unit := do
  if ← withinStatement then
    let t ← next
    if t.kind.isLexicalError then setRecovering true
    fail (.leftover t) t
    recover
  skipBlanks
  setSeparator .none
  if (← get).lineMode == 0 then shiftLineBreak

/-- A statement whose tokens are not looked at. -/
def rawStatement (k : NodeKind) : Production Unit :=
  within k do
    shift
    shiftRest
    finishStatement

/-- A comma-separated list of at least one item. -/
def commaList (item : Production Unit) : Production Unit := do
  item
  repeatWhile (atNext (.lexeme .comma)) do
    shiftNext
    item

end LosslessBasic.Grammar
