import LosslessBasic.Grammar.Declaration

/-!
# Simple statements

The statements that take one line and hold no other statements: assignments and calls, jumps, and
the statements of the run-time library, whose operands are not looked at.
-/

namespace LosslessBasic.Grammar

/-! ## Assignments and calls -/

/-- A variable, an equals sign and a value, and the end of the statement. -/
def assignment : Production Unit := do
  variable_
  if ← expect (.lexeme .equal) then operand
  finishStatement

/-- An assignment without a word in front. -/
def assignmentStatement : Production Unit := within .assignmentStatement assignment

/-- An assignment with a word in front: `Let`, or `Set` for the assignment of an object. -/
def wordedAssignment (k : NodeKind) : Production Unit :=
  within k do
    shift
    assignment

/-- What is called and its arguments, and the end of the statement. -/
def call : Production Unit := do
  callee
  if ← withinStatement then commandArguments
  finishStatement

/-- A call without a word in front. -/
def callStatement : Production Unit := within .callStatement call

/-- A call with its word in front. -/
def callKeywordStatement : Production Unit :=
  within .callStatement do
    shift
    call

/-- The raising of an event. -/
def raiseEventStatement : Production Unit :=
  within .raiseEventStatement do
    shift
    if ← hasName .eventName then
      if ← atNext (.lexeme .leftParen) then
        skipBlanks
        argumentList
    finishStatement

/-- A statement of one word. -/
def wordStatement (k : NodeKind) : Production Unit :=
  within k do
    shift
    finishStatement

/-! ## Jumps -/

/-- The target of a jump: a name, or the number of a line. -/
def label : Production Unit := do
  let kind ← nextKind
  if kind.isNameLike || kind == .lexeme .integerLiteral || kind == .lexeme .longLiteral then
    shiftNext
  else failExpected .label

/-- A jump to a label. -/
def jumpStatement (k : NodeKind) : Production Unit :=
  within k do
    shift
    label
    finishStatement

/-- The return from the handling of an error. -/
def resumeStatement : Production Unit :=
  within .resumeStatement do
    shift
    unless ← accept (.keyword .next) do
      if ← withinStatement then label
    finishStatement

/-- What an `Exit` can leave. -/
def isExitTarget : Kind → Bool
  | .keyword .do_ | .keyword .for_ | .keyword .function | .keyword .property
  | .keyword .sub => true
  | _ => false

/-- The word that says what is left. -/
def exitTarget : Production Unit := do
  if isExitTarget (← nextKind) then shiftNext
  else failExpected .exitTarget

/-- The leaving of a block. -/
def exitStatement : Production Unit :=
  within .exitStatement do
    shift
    exitTarget
    finishStatement

/-- What is to be done when an error occurs. A jump to `-1` forgets the error in hand. -/
def onErrorStatement : Production Unit :=
  within .onErrorStatement do
    shift
    shiftNext
    if ← accept (.keyword .goTo) then
      if ← accept (.lexeme .minus) then
        let _ ← expect (.lexeme .integerLiteral)
      else label
    else if ← expect (.keyword .resume) then
      let _ ← expect (.keyword .next)
    finishStatement

/-- A jump to one of several labels, chosen by a number. -/
def onJumpStatement : Production Unit := do
  let cp ← checkpoint
  shift
  operand
  let node : NodeKind :=
    if ← atNext (.keyword .goSub) then .onGoSubStatement else .onGoToStatement
  let _ ← compositeFrom cp node do
    let jumps ← do
      if ← accept (.keyword .goSub) then pure true else expect (.keyword .goTo)
    if jumps then commaList label
    finishStatement

/-- A statement that starts with `On`. -/
def onStatement : Production Unit := do
  if (← secondKind) == .keyword .error then onErrorStatement else onJumpStatement

/-! ## Statements that are not looked at -/

/-- The node of a statement that is not looked at behind its first word. -/
def rawKind? : Keyword → Option NodeKind
  | .version => some .versionStatement
  | .object => some .objectStatement
  | .attribute_ => some .attributeStatement
  | .option => some .optionStatement
  | .defBool | .defByte | .defCur | .defDate | .defDbl | .defDec | .defInt | .defLng | .defObj
  | .defSng | .defStr | .defVar => some .defTypeStatement
  | .appActivate => some .appActivateStatement
  | .beep => some .beepStatement
  | .chDir => some .chDirStatement
  | .chDrive => some .chDriveStatement
  | .close => some .closeStatement
  | .deleteSetting => some .deleteSettingStatement
  | .error => some .errorStatement
  | .fileCopy => some .fileCopyStatement
  | .get => some .getStatement
  | .put => some .putStatement
  | .input => some .inputStatement
  | .kill => some .killStatement
  | .load => some .loadStatement
  | .unload => some .unloadStatement
  | .lock => some .lockStatement
  | .unlock => some .unlockStatement
  | .lSet => some .lSetStatement
  | .rSet => some .rSetStatement
  | .mid => some .midStatement
  | .midB => some .midBStatement
  | .mkDir => some .mkDirStatement
  | .rmDir => some .rmDirStatement
  | .name => some .nameStatement
  | .open_ => some .openStatement
  | .print => some .printStatement
  | .randomize => some .randomizeStatement
  | .reset => some .resetStatement
  | .savePicture => some .savePictureStatement
  | .saveSetting => some .saveSettingStatement
  | .seek => some .seekStatement
  | .sendKeys => some .sendKeysStatement
  | .setAttr => some .setAttrStatement
  | .width => some .widthStatement
  | .write => some .writeStatement
  | _ => none

/-- A statement that starts with `Line`: the input of a line, an assignment to a variable of that
name, or a call. -/
def lineStatement : Production Unit := do
  if (← secondKind) == .keyword .input then rawStatement .lineInputStatement
  else if ← look Lookahead.startsAssignment then assignmentStatement
  else callStatement

/-! ## Labels and what is no statement -/

/-- Whether a label comes next: at the start of a line, a number, or a name with a colon directly
behind it. -/
def atLabel : Production Bool := do
  let s ← get
  match s.lastSeparator, s.stream.current.kind with
  | .lineBreak, .lexeme .identifier => return (s.stream.peek 1).kind == .lexeme .colon
  | .lineBreak, .lexeme .integerLiteral => return true
  | _, _ => return false

/-- A label. A statement may follow it on its line. -/
def labelStatement : Production Unit :=
  within .labelStatement do
    shift
    setSeparator .none
    if ← atCurrent (.lexeme .colon) then
      shift
      setSeparator .colon
    if (← atStatementEnd) && !(← atNext (.lexeme .colon)) then finishStatement

/-- Moves a statement without meaning under a node of its own. -/
def unknownStatement : Production Unit := rawStatement .unknown

/-- What starts no statement. A token that was reported when it was read is not reported again. -/
def unexpectedStatement : Production Unit := do
  let t ← current
  unless t.kind.isLexicalError do report (.unexpectedStart t) t
  setRecovering true
  unknownStatement

end LosslessBasic.Grammar
