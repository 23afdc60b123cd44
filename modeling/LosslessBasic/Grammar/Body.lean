import LosslessBasic.Grammar.Simple

/-!
# Lists of statements

The statements of a source, of the body of a block, and of an arm of a single-line `If`. A list ends
at a closer that some open block is waiting for; a closer that no block waits for is reported and
passed over. The productions take the reading of one statement as an argument.
-/

namespace LosslessBasic.Grammar

/-! ## Between statements -/

/-- Moves a colon between statements. A colon that separates no two statements is reported. -/
def separator : Production Unit := do
  if (← get).lastSeparator == .none then shift
  else
    report .straySeparator (← current)
    within .unknown shift
  setSeparator .colon

/-- Moves a token without meaning for the grammar. -/
def shiftTrivia : Production Unit := do
  let kind ← currentKind
  shift
  if kind == .trivia .newline then setSeparator .lineBreak

/-! ## Closers -/

/-- The closer that comes next. -/
def nextCloser? : Production (Option Closer) :=
  look fun s => Closer.ofKinds? (s.peekSignificant 0).kind (s.peekSignificant 1).kind

/-- Reports at a token that the closer of the innermost block is missing. -/
def reportMissingCloser (t : Token) : Production Unit := do
  match (← get).blocks with
  | [] => pure ()
  | block :: _ => report (.missingCloser block t) t

/-- How a closer is written, one word or two. -/
def writtenCloser : Production Bytes := do
  let t ← current
  if t.kind == .keyword .end_ then
    return t.text ++ Bytes.ofString " " ++ (← look (·.peekSignificant 1)).text
  return t.text

/-- A closer that no block waits for. -/
def strayCloser (closer : Closer) : Production Unit := do
  report (.unmatchedCloser (← writtenCloser) closer) (← current)
  setRecovering true
  unknownStatement

/-- Ends a block whose closer comes next. -/
def blockEnd (stop : Stop) : Production Unit := do
  if stop == .ownCloser then closeBlock

/-! ## Lists -/

section

variable (statement : Production Unit)

/-- Reads a statement. When it has closed a loop further out, too, the list ends with it. -/
def statementPass : Production (Pass Unit Stop) := do
  statement
  let s ← get
  if 0 < s.pendingNext && s.blocks.head? == some .for_ then
    setPendingNext (s.pendingNext - 1)
    return .done .closedByNext
  return .again ()

/-- Ends the list before a closer of an open block, or passes over a closer of none. -/
def closerPass (closer : Closer) : Production (Pass Unit Stop) := do
  if (← get).blocks.head? == some closer.block then return .done .ownCloser
  if ← blockIsOpen closer.block then
    reportMissingCloser (← current)
    return .done .enclosingCloser
  strayCloser closer
  return .again ()

/-- What the closer that comes next does to the list, or the reading of a statement when there is
none. In a procedure the list ends before the header of another one. -/
def closerOrStatementPass : Option Closer → Production (Pass Unit Stop)
  | some closer => closerPass closer
  | none => do
    if (← insideProcedure) && (← atProcedureHeader) then
      reportMissingCloser (← current)
      return .done .procedureHeader
    statementPass statement

/-- One step through a list of statements, away from the end of its line. -/
def listPass : Production (Pass Unit Stop) := do
  let kind ← currentKind
  if kind.isTrivia then
    shiftTrivia
    return .again ()
  if kind == .lexeme .colon then
    separator
    return .again ()
  closerOrStatementPass statement (← nextCloser?)

/-- Whether a kind ends a list of statements on one line. -/
def endsInlineList : Kind → Bool
  | .trivia .newline | .trivia .endOfLineComment | .trivia .remComment
  | .keyword .else_ => true
  | _ => false

/-- One step through a list of statements. A block that is opened in a single-line `If` has to end
on its line. -/
def statementsPass (_ : Unit) : Production (Pass Unit Stop) := do
  let t ← current
  if t.kind == .lexeme .endOfFile then
    reportMissingCloser t
    return .done .endOfInput
  if 0 < (← get).lineMode && endsInlineList t.kind then
    reportMissingCloser t
    return .done .endOfLine
  listPass statement

/-- A list of statements, up to where it has to end. -/
def statements : Production Stop :=
  iterate (fun _ => .endOfInput) (statementsPass statement) ()

/-- The body of a block, under a node of its own. -/
def blockBody (block : Block) : Production Stop := do
  let stop ← inBlock block (within .statementList (statements statement))
  setRecovering false
  return stop

/-- An `Else` in the arm that follows an `Else`. -/
def secondElse : Production Unit := do
  report .secondElse (← current)
  within .unknown shift

/-- One step through the arm of a single-line `If`. The arm before `Else` ends there. -/
def inlinePass (endsAtElse : Bool) (_ : Unit) : Production (Pass Unit Stop) := do
  let kind ← currentKind
  if kind == .lexeme .endOfFile then return .done .endOfInput
  if kind == .trivia .newline || kind.isComment then return .done .endOfLine
  if kind.isInlineTrivia then
    shift
    return .again ()
  if kind == .lexeme .colon then
    separator
    return .again ()
  if kind == .keyword .else_ then
    if endsAtElse then return .done .ownCloser
    secondElse
    return .again ()
  statement
  return .again ()

/-- The statements in the arm of a single-line `If`. -/
def inlineStatements (endsAtElse : Bool) : Production Stop := do
  setSeparator .none
  iterate (fun _ => .endOfInput) (inlinePass statement endsAtElse) ()

end

end LosslessBasic.Grammar
