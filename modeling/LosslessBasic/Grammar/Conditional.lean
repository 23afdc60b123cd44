import LosslessBasic.Grammar.Body

/-!
# If

The block form of `If` with its `ElseIf` and `Else` bodies, and the form on a single line, whose
arms are separated by `Else` and end with the line.
-/

namespace LosslessBasic.Grammar

section

variable (statement : Production Unit)

/-- `If` or `ElseIf` with its condition and `Then`. -/
def ifHeader : Production Unit := do
  shiftNext
  operand
  let _ ← expect (.keyword .then_)

/-! ## On a single line -/

/-- A line number in the place of a statement, which is jumped to. -/
def lineNumberJump : Production Unit := do
  skipBlanks
  wordStatement .gotoStatement

/-- An arm of a single-line `If`. -/
def inlineArm (endsAtElse : Bool) : Production Unit :=
  within .statementList do
    if ← atNext (.lexeme .integerLiteral) then lineNumberJump
    let _ ← inlineStatements statement endsAtElse

/-- The arms of a single-line `If`. -/
def inlineArms : Production Unit := do
  inlineArm statement true
  if ← atNext (.keyword .else_) then
    skipBlanks
    within .elseClause do
      shift
      inlineArm statement false

/-- What follows `Then` on its line, and the end of the statement. -/
def singleLineIf : Production Unit := do
  onOneLine (inlineArms statement)
  finishStatement

/-! ## The block form -/

/-- One step through the `ElseIf` bodies. -/
def elseIfPass (stop : Stop) : Production (Pass Stop Stop) := do
  if stop == .ownCloser && (← atNext (.keyword .elseIf)) then
    let stop ← within .elseIfClause do
      ifHeader
      finishStatement
      blockBody statement .if_
    return .again stop
  return .done stop

/-- Whether `Else` or `ElseIf` comes next. -/
def atElse : Production Bool :=
  look fun s => (s.peekSignificant 0).kind == .keyword .else_ ||
    (s.peekSignificant 0).kind == .keyword .elseIf

/-- One step through what follows the `Else` body: further `Else` and `ElseIf` are reported, and the
body goes on. -/
def elseBodyPass (stop : Stop) : Production (Pass Stop Stop) := do
  if stop == .ownCloser && (← atElse) then
    strayCloser { block := .if_, isSegment := true }
    return .again (← blockBody statement .if_)
  return .done stop

/-- The `Else` body. -/
def elseClause : Production Stop :=
  within .elseClause do
    shiftNext
    finishStatement
    let stop ← blockBody statement .if_
    iterate id (elseBodyPass statement) stop

/-- The bodies of an `If` in the block form, and its closer. -/
def blockIf : Production Unit := do
  finishStatement
  let stop ← blockBody statement .if_
  let stop ← iterate id (elseIfPass statement) stop
  let stop ←
    if stop == .ownCloser && (← atNext (.keyword .else_)) then elseClause statement
    else pure stop
  blockEnd stop

/-- An `If` statement. It has the block form where nothing but a comment follows `Then`, or where
its header has failed. -/
def ifStatement : Production Unit :=
  within .ifStatement do
    ifHeader
    let failed := (← get).recovering
    let kind ← nextKind
    if failed || kind == .trivia .newline || kind == .lexeme .endOfFile || kind.isComment then
      blockIf statement
    else singleLineIf statement

end

end LosslessBasic.Grammar
