import LosslessBasic.Grammar.Body

/-!
# Loops and With

`For`, `Do`, `While` and `With`. A `Next` may name several loops; it closes the innermost one itself
and leaves it to the bodies around it to end for the others.
-/

namespace LosslessBasic.Grammar

/-! ## For -/

/-- What an array or a collection is gone through by. -/
def forEachHeader : Production Unit := do
  let _ ← accept (.keyword .each)
  variable_
  if ← expect (.keyword .in_) then operand

/-- What a number is counted through by. -/
def forHeader : Production Unit := do
  variable_
  if ← expect (.lexeme .equal) then
    operand
    if ← expect (.keyword .to_) then
      operand
      if ← accept (.keyword .step) then operand

/-- The number of loops that are open around each other, from the innermost block outwards. -/
def openLoops : Production Nat := do
  return ((← get).blocks.takeWhile fun b => b == .for_).length

/-- One more variable behind a `Next`, after which `closed` loops further out are closed. A variable
without a loop is reported. -/
def nextVariablePass (closed : Nat) : Production (Pass Nat Nat) := do
  if ← atNext (.lexeme .comma) then
    shiftNext
    let named ← next
    let matched := closed != (← openLoops)
    unless matched do fail (.unmatchedNext named) named
    variable_
    return .again (if matched then closed + 1 else closed)
  return .done closed

/-- `Next` with the variables of the loops it closes. -/
def nextClause : Production Unit := do
  note .close (← next)
  shiftNext
  if ← withinStatement then
    variable_
    let closed ← iterate id nextVariablePass 0
    setPendingNext closed
  finishStatement

section

variable (statement : Production Unit)

/-- A `For` or `For Each` loop. -/
def forStatement : Production Unit := do
  let isEach := (← secondKind) == .keyword .each
  within (if isEach then .forEachStatement else .forStatement) do
    shift
    if isEach then forEachHeader else forHeader
    finishStatement
    let stop ← blockBody statement .for_
    if stop == .ownCloser then nextClause

/-! ## Do and While -/

/-- Whether a word in front of the condition of a `Do` loop comes next. -/
def atLoopCondition : Production Bool :=
  look fun s => (s.peekSignificant 0).kind == .keyword .while_ ||
    (s.peekSignificant 0).kind == .keyword .until_

/-- The condition of a `Do` loop, when there is one. -/
def optionalLoopCondition : Production Unit := do
  if ← atLoopCondition then
    shiftNext
    operand

/-- A `Do` loop. -/
def doStatement : Production Unit :=
  within .doStatement do
    shift
    optionalLoopCondition
    finishStatement
    let stop ← blockBody statement .do_
    if stop == .ownCloser then
      note .close (← next)
      shiftNext
      optionalLoopCondition
      finishStatement

/-- A `While` loop. -/
def whileStatement : Production Unit :=
  within .whileStatement do
    shift
    operand
    finishStatement
    let stop ← blockBody statement .while_
    if stop == .ownCloser then
      note .close (← next)
      shiftNext
      finishStatement

/-! ## With -/

/-- A `With` block. Accesses in its body that start with a dot or bang refer to its header. -/
def withStatement : Production Unit :=
  within .withStatement do
    shift
    let target ← expression
    finishStatement
    let stop ← inWith target (blockBody statement .with_)
    blockEnd stop

end

end LosslessBasic.Grammar
