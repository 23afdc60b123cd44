import LosslessBasic.Grammar.Body

/-!
# Select Case

A `Select Case` holds clauses, each with its tests and its body. Lines before the first clause
belong to no body and are reported.
-/

namespace LosslessBasic.Grammar

/-! ## Tests -/

/-- The sign of a comparison and what is compared with. -/
def comparison : Production Unit := do
  let t ← current
  if Operator.isRelational t.kind then
    shift
    operand
  else fail (.expected .comparison t) t

/-- A comparison with the selected value. -/
def comparisonTest : Production Unit :=
  within .caseIs do
    if ← atCurrent (.keyword .is) then
      shift
      skipBlanks
    comparison

/-- A value, or a range of values. -/
def valueTest : Production Unit := do
  let cp ← checkpoint
  operand
  if ← atNext (.keyword .to_) then
    let _ ← compositeFrom cp .caseRange do
      shiftNext
      operand

/-- A test of a clause. -/
def caseTest : Production Unit := do
  skipBlanks
  let kind ← currentKind
  if kind == .keyword .is || Operator.isRelational kind then comparisonTest else valueTest

/-! ## Clauses -/

section

variable (statement : Production Unit)

/-- Whether `Case` and `Else` come next. -/
def atCaseElse : Production Bool :=
  look fun s => (s.peekSignificant 0).kind == .keyword .case &&
    (s.peekSignificant 1).kind == .keyword .else_

/-- A clause with its body. -/
def caseClause : Production Stop := do
  let isElse ← atCaseElse
  within (if isElse then .caseElseClause else .caseClause) do
    setRecovering false
    shiftNext
    if isElse then shiftNext else commaList caseTest
    finishStatement
    blockBody statement .select

/-- A line outside of the clauses. -/
def strayCaseLine : Production Unit := do
  setRecovering false
  let t ← current
  fail (.expectedCase t) t
  unknownStatement

/-- Goes on behind a clause, or leaves behind the closer. -/
def afterClause (stop : Stop) : Production (Pass Unit Unit) := do
  if stop != .ownCloser then return .done ()
  if ← atNext (.keyword .end_) then
    blockEnd stop
    return .done ()
  return .again ()

/-- What a closer within a `Select Case` does: it opens a clause, closes the block, closes a block
further out, or nothing. -/
def selectCloserPass (closer : Closer) : Production (Pass Unit Unit) := do
  if closer.block == .select then
    if closer.isSegment then afterClause (← caseClause statement) else afterClause .ownCloser
  else if ← blockIsOpen closer.block then
    let t ← current
    report (.missingCloser .select t) t
    return .done ()
  else
    strayCloser closer
    return .again ()

/-- What the closer that comes next does to the clauses, or the reading of a stray line when there
is none. In a procedure the clauses end before the header of another one. -/
def closerOrLinePass : Option Closer → Production (Pass Unit Unit)
  | some closer => selectCloserPass statement closer
  | none => do
    if (← insideProcedure) && (← atProcedureHeader) then
      let t ← current
      report (.missingCloser .select t) t
      return .done ()
    strayCaseLine
    return .again ()

/-- One step through the clauses. -/
def selectPass (_ : Unit) : Production (Pass Unit Unit) := do
  let t ← current
  if t.kind == .lexeme .endOfFile then
    report (.missingCloser .select t) t
    return .done ()
  if t.kind.isTrivia || t.kind == .lexeme .colon then
    shift
    return .again ()
  closerOrLinePass statement (← nextCloser?)

/-- A `Select Case` block. -/
def selectStatement : Production Unit :=
  within .selectCaseStatement do
    shift
    if ← expect (.keyword .case) then operand
    finishStatement
    iterate (fun _ => ()) (selectPass statement) ()

end

end LosslessBasic.Grammar
