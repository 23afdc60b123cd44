import LosslessBasic.Grammar.Expression

/-!
# Declarations

Variables, constants, parameters and types, and the declarations made of them. A declaration may
start with modifiers such as `Private`; the word behind them says what is declared.
-/

namespace LosslessBasic.Grammar

/-! ## Parts of declarations -/

/-- Moves the modifiers in front of a declaration. -/
def shiftModifiers : Production Unit :=
  repeatWhile (do return Lookahead.isModifier (← nextKind)) shiftNext

/-- Moves the modifiers and the word behind them that says what is declared. -/
def shiftDeclarator : Production Unit := do
  shiftModifiers
  shiftNext

/-- One step through items in parentheses that are read by `item`. -/
def groupPass (item : Production Unit) (_ : Unit) : Production (Pass Unit Unit) := do
  skipBlanks
  if ← atCurrent (.lexeme .rightParen) then
    shift
    return .done ()
  if ← atStatementEnd then
    let _ ← expect (.lexeme .rightParen)
    return .done ()
  item
  if ← atNext (.lexeme .comma) then
    shiftNext
    return .again ()
  let _ ← expect (.lexeme .rightParen)
  return .done ()

/-- Items in parentheses, under a node of their own. -/
def group (k : NodeKind) (item : Production Unit) : Production Unit := do
  skipBlanks
  within k do
    shift
    iterate (fun _ => ()) (groupPass item) ()

/-- One dimension of an array: its size, or its bounds. -/
def arrayBound : Production Unit :=
  within .arrayBound do
    operand
    if ← accept (.keyword .to_) then operand

/-- The dimensions of an array. -/
def arrayBounds : Production Unit := group .arrayBounds arrayBound

/-- A type behind `As`, with the length of a text of fixed length. -/
def asClause : Production Unit := do
  skipBlanks
  within .asClause do
    shift
    let _ ← accept (.keyword .new)
    skipBlanks
    let _ ← typeName
    if ← accept (.lexeme .star) then operand

/-- A type behind `As`, when there is one. -/
def optionalAsClause : Production Unit := do
  if ← atNext (.keyword .as) then asClause

/-- The dimensions of an array, when there are any. -/
def optionalArrayBounds : Production Unit := do
  if ← atNext (.lexeme .leftParen) then arrayBounds

/-- A name that is declared, with its dimensions and its type and what else belongs to it. -/
def declaration (value : Production Unit) : Production Unit := do
  skipBlanks
  within .variableDeclaration do
    if ← atCurrent (.keyword .withEvents) then shift
    if ← hasName .variableName then
      optionalArrayBounds
      optionalAsClause
      value

/-- A variable that is declared. -/
def variableDeclaration : Production Unit := declaration (pure ())

/-- A constant that is declared, with its value. -/
def constantDeclaration : Production Unit :=
  declaration do
    if ← expect (.lexeme .equal) then operand

/-- A parameter of a procedure. -/
def parameter : Production Unit := do
  skipBlanks
  within .parameter do
    let _ ← accept (.keyword .optional)
    unless ← accept (.keyword .byVal) do
      let _ ← accept (.keyword .byRef)
    let _ ← accept (.keyword .paramArray)
    if ← hasName .parameterName then
      if ← accept (.lexeme .leftParen) then
        let _ ← expect (.lexeme .rightParen)
      optionalAsClause
      if ← accept (.lexeme .equal) then operand

/-- The parameters of a procedure, when there are any. -/
def optionalParameterList : Production Unit := do
  if ← atNext (.lexeme .leftParen) then group .parameterList parameter

/-! ## Declarations -/

/-- The declaration of variables. -/
def dimStatement : Production Unit :=
  within .dimStatement do
    shiftModifiers
    let _ ← accept (.keyword .dim)
    commaList variableDeclaration
    finishStatement

/-- The declaration of constants. -/
def constStatement : Production Unit :=
  within .constStatement do
    shiftDeclarator
    commaList constantDeclaration
    finishStatement

/-- New dimensions for arrays. -/
def reDimStatement : Production Unit :=
  within .reDimStatement do
    shift
    let _ ← accept (.keyword .preserve)
    commaList variableDeclaration
    finishStatement

/-- The release of arrays. -/
def eraseStatement : Production Unit :=
  within .eraseStatement do
    shift
    commaList operand
    finishStatement

/-- The words behind the name of an external procedure: its library and what it takes and gives. -/
def externalSignature : Production Unit := do
  if ← hasName .procedureName then
    if ← expect (.keyword .lib) then
      if ← expect (.lexeme .stringLiteral) then
        if ← accept (.keyword .alias_) then
          let _ ← expect (.lexeme .stringLiteral)
        optionalParameterList
        optionalAsClause

/-- The declaration of an external procedure. -/
def declareStatement : Production Unit :=
  within .declareStatement do
    shiftDeclarator
    if (← accept (.keyword .sub)) then externalSignature
    else if (← accept (.keyword .function)) then externalSignature
    else failExpected .procedureKeyword
    finishStatement

/-- The declaration of an event. -/
def eventStatement : Production Unit :=
  within .eventStatement do
    shiftDeclarator
    if ← hasName .eventName then optionalParameterList
    finishStatement

/-- The interface that a module implements. -/
def implementsStatement : Production Unit :=
  within .implementsStatement do
    shift
    skipBlanks
    let _ ← typeName
    finishStatement

/-! ## Types and enumerations -/

/-- Whether the header of a procedure comes next. -/
def atProcedureHeader : Production Bool := look fun s => Lookahead.startsProcedure s.rest

/-- A member of a type or of an enumeration, with what may follow its name. -/
def member (k : NodeKind) (details : Production Unit) : Production Unit := do
  setRecovering false
  within k do
    if ← hasName .memberName then details
    finishStatement

/-- A member of a type. -/
def typeMember : Production Unit :=
  member .typeMember do
    optionalArrayBounds
    optionalAsClause

/-- A member of an enumeration. -/
def enumMember : Production Unit :=
  member .enumMember do
    if ← accept (.lexeme .equal) then operand

/-- Moves the two words of a closer and ends their statement. -/
def closeBlock : Production Unit := do
  note .close (← look (·.peekSignificant 1))
  shiftNext
  shiftNext
  finishStatement

/-- Whether `End` and `closer` come next. -/
def atCloser (closer : Keyword) : Production Bool :=
  look fun s => (s.peekSignificant 0).kind == .keyword .end_ &&
    (s.peekSignificant 1).kind == .keyword closer

/-- A member, which is read by `item`, or a token of unknown meaning where that moves nothing: in a
single-line `If`, an `Else` ends a member before it begins. -/
def memberOrToken (item : Production Unit) : Production Unit := do
  let before ← look (·.remaining)
  item
  if (← look (·.remaining)) == before then within .unknown shift

/-- One step through the members of a block that is closed by `End` and `closer`. -/
def memberPass (block : Block) (closer : Keyword) (item : Production Unit) (_ : Unit) :
    Production (Pass Unit Unit) := do
  let t ← current
  if t.kind == .lexeme .endOfFile then
    report (.missingCloser block t) t
    return .done ()
  if t.kind.isTrivia || t.kind == .lexeme .colon then
    shift
    return .again ()
  if ← atNext (.keyword .end_) then
    if ← atCloser closer then closeBlock
    else report (.missingCloser block t) t
    return .done ()
  if ← atProcedureHeader then
    report (.missingCloser block t) t
    return .done ()
  memberOrToken item
  return .again ()

/-- The members of a block that is closed by `End` and `closer`. -/
def memberBlock (block : Block) (closer : Keyword) (item : Production Unit) : Production Unit :=
  iterate (fun _ => ()) (memberPass block closer item) ()

/-- The declaration of a type. -/
def typeStatement : Production Unit :=
  within .typeStatement do
    shiftDeclarator
    let _ ← expectName .typeName
    finishStatement
    memberBlock .type .type typeMember

/-- The declaration of an enumeration. -/
def enumStatement : Production Unit :=
  within .enumStatement do
    shiftDeclarator
    let _ ← expectName .enumName
    finishStatement
    memberBlock .enum .enum enumMember

end LosslessBasic.Grammar
