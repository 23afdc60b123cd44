import LosslessBasic.Grammar.Boundary
import LosslessBasic.Grammar.Lookahead
import LosslessBasic.Grammar.Operator

/-!
# Expressions

Expressions are read by binding powers. The productions of the first part take the reading of
expressions as an argument, `operand power` for an expression whose operators bind at least with
`power`; the second part closes the circle. Every expression within an expression starts behind a
token that is moved first, so the number of tokens ahead bounds how deep expressions nest.

A production gives the node it has made, and nothing when it found none to make.
-/

namespace LosslessBasic.Grammar

/-! ## Names and members -/

/-- A name by itself. -/
def nameExpression : Production (Option Tree) := composite .identifierExpression shift

/-- Asks for a name. -/
def expectName (wanted : Wanted) : Production (Option Tree) := do
  if (← nextKind).isNameLike then
    skipBlanks
    nameExpression
  else
    failExpected wanted
    return none

/-- Asks for a name, of which it says only whether it was there. -/
def hasName (wanted : Wanted) : Production Bool := do return (← expectName wanted).isSome

/-- The name of a member behind its sign. -/
def memberName : Production Unit := do
  let t ← current
  if t.kind.isMemberName then
    let _ ← nameExpression
  else
    fail (.expected .memberName t) t

/-- Whether a member access goes on at the cursor: a sign and, with no blank between, a name. -/
def atMemberAccess : Production Bool :=
  look fun s => Lookahead.isAccessSign s.current.kind && (s.peek 1).kind.isMemberName

/-- The kind of the access that a sign makes. -/
def accessKind : Kind → NodeKind
  | .lexeme .period => .memberAccessExpression
  | _ => .dictionaryAccessExpression

/-- Notes that an access that starts with its sign refers to the header of the innermost `With`. -/
def referToHeader (sign : Token) (access : Option Tree) : Production Unit := do
  match (← get).withTargets, access with
  | [], _ => fail (.memberOutsideWith sign) sign
  | some header :: _, some access => addTarget access header
  | _, _ => pure ()

/-- An access that starts with its sign. -/
def leadingAccess : Production (Option Tree) := do
  let sign ← current
  let access ← composite (accessKind sign.kind) do
    shift
    memberName
  referToHeader sign access
  return access

/-- Whether a name behind a period goes on a qualified name. -/
def atQualifier : Production Bool :=
  look fun s => s.current.kind == .lexeme .period && (s.peek 1).kind.isMemberName

/-- The name of a type, with the names it is qualified by. -/
def typeName : Production (Option Tree) :=
  composite .typeReference do
    if (← currentKind).isNameLike then
      shift
      repeatWhile atQualifier do
        shift
        shift
    else
      failExpected .typeName

/-! ## Within an expression -/

section

variable (operand : Nat → Production (Option Tree))

/-- Whether the name of a parameter and its sign come next. -/
def atNamedArgument : Production Bool :=
  look fun s => s.current.kind.isNameLike && (s.peekSignificant 1).kind == .lexeme .colonEqual

/-- The name of a parameter and its sign, when they come next. -/
def optionalParameterName : Production Unit := do
  if ← atNamedArgument then
    let _ ← nameExpression
    shiftNext

/-- An argument: an expression, with `ByVal` or the name of a parameter in front of it. -/
def argumentWith : Production Unit := do
  skipBlanks
  within .argument do
    if ← atCurrent (.keyword .byVal) then
      shift
      skipBlanks
    optionalParameterName
    let _ ← operand 0

/-- One step through the arguments in parentheses. Arguments may be left out. -/
def argumentPass (_ : Unit) : Production (Pass Unit Unit) := do
  skipBlanks
  if ← atCurrent (.lexeme .rightParen) then
    shift
    return .done ()
  if ← atCurrent (.lexeme .comma) then
    shift
    return .again ()
  if ← atStatementEnd then
    let _ ← expect (.lexeme .rightParen)
    return .done ()
  argumentWith operand
  if ← atNext (.lexeme .comma) then
    shiftNext
    return .again ()
  let _ ← expect (.lexeme .rightParen)
  return .done ()

/-- Arguments in parentheses. -/
def argumentListWith : Production Unit :=
  within .argumentList do
    shift
    iterate (fun _ => ()) (argumentPass operand) ()

/-- Whether arguments in parentheses go on an operand. Where a command may take its arguments
without parentheses, parentheses belong to the operand only if no blank stands before them. -/
def atArguments (spacedCall : Bool) : Production Bool :=
  look fun s => s.current.kind == .lexeme .leftParen ||
    (spacedCall && s.current.kind.isInlineTrivia && (s.peekSignificant 0).kind ==
      .lexeme .leftParen)

/-- One step of what follows a name or another operand: a member, or arguments. -/
def suffixPass (cp : Checkpoint) (spacedCall : Bool) (base : Option Tree) :
    Production (Pass (Option Tree) (Option Tree)) := do
  if ← atMemberAccess then
    let access ← compositeFrom cp (accessKind (← currentKind)) do
      shift
      memberName
    return .again access
  if ← atArguments spacedCall then
    let call ← compositeFrom cp .callExpression do
      skipBlanks
      argumentListWith operand
    return .again call
  return .done base

/-- What follows an operand. -/
def suffixesWith (cp : Checkpoint) (spacedCall : Bool) (base : Option Tree) :
    Production (Option Tree) :=
  iterate id (suffixPass operand cp spacedCall) base

/-- A name or leading access with what follows it. -/
def designatorWith (wanted : Wanted) (spacedCall : Bool) : Production (Option Tree) := do
  skipBlanks
  let cp ← checkpoint
  let kind ← currentKind
  if Lookahead.isAccessSign kind then
    suffixesWith operand cp spacedCall (← leadingAccess)
  else if kind.isNameLike then
    suffixesWith operand cp spacedCall (← nameExpression)
  else
    failExpected wanted
    return none

/-- What can be assigned to. -/
def variableWith : Production (Option Tree) := designatorWith operand .variableName true

/-- What can be called as a command. -/
def calleeWith : Production (Option Tree) := designatorWith operand .procedureName false

/-- An expression in parentheses. Several, with commas between them, make a point. -/
def parenthesizedWith : Production (Option Tree) :=
  composite .parenthesizedExpression do
    shift
    commaList do
      let _ ← operand 0
    let _ ← expect (.lexeme .rightParen)

/-- The node that a literal makes. -/
def literalKind? : Kind → Option NodeKind
  | .lexeme .stringLiteral => some .stringLiteralExpression
  | .lexeme .dateLiteral => some .dateLiteralExpression
  | .keyword .true_ | .keyword .false_ => some .booleanLiteralExpression
  | .keyword .nothing | .keyword .null | .keyword .empty => some .literalExpression
  | .lexeme l => if l.isNumber then some .numericLiteralExpression else none
  | _ => none

/-- An operand that does not end in another expression. A token that was reported when it was read
stands for one. -/
def primaryWith : Production (Option Tree) := do
  let t ← current
  match literalKind? t.kind with
  | some literal => composite literal shift
  | none =>
    match t.kind with
    | .lexeme .leftParen => parenthesizedWith operand
    | .lexeme .period | .lexeme .bang => leadingAccess
    | .lexeme .unterminatedString | .lexeme .unknownCharacter =>
      setRecovering true
      composite .unknown shift
    | kind =>
      if kind.isNameLike then nameExpression
      else
        fail (.expected .expression t) t
        return none

/-- The test of the type of an object. -/
def typeOfWith : Production (Option Tree) :=
  composite .typeOfExpression do
    shift
    let _ ← operand Operator.typeOfOperandPower
    if ← expect (.keyword .is) then
      skipBlanks
      let _ ← typeName

/-- What follows an operand that starts at a checkpoint, when one was found. -/
def operandSuffixes (cp : Checkpoint) : Option Tree → Production (Option Tree)
  | none => pure none
  | some primary => suffixesWith operand cp true (some primary)

/-- An operand with the operators in front of it. -/
def unaryWith : Production (Option Tree) := do
  skipBlanks
  let kind ← currentKind
  match Operator.unaryPower? kind with
  | some power =>
    composite .unaryExpression do
      shift
      let _ ← operand power
  | none =>
    match kind with
    | .keyword .addressOf =>
      composite .addressOfExpression do
        shift
        let _ ← calleeWith operand
    | .keyword .new =>
      composite .newExpression do
        shift
        skipBlanks
        let _ ← typeName
    | .keyword .typeOf => typeOfWith operand
    | _ =>
      let cp ← checkpoint
      operandSuffixes operand cp (← primaryWith operand)

/-- One step through the operators of at least the power `power`, with the operand to the left. -/
def operatorPass (cp : Checkpoint) (power : Nat) (left : Option Tree) :
    Production (Pass (Option Tree) (Option Tree)) := do
  match Operator.binaryPower? (← nextKind) with
  | none => return .done left
  | some binding =>
    if binding < power then return .done left
    shiftNext
    let _ ← operand (binding + 1)
    return .again (← compositeFrom cp .binaryExpression (pure ()))

/-- Operands with operators of at least the power `power` between them. -/
def binaryWith (power : Nat) : Production (Option Tree) := do
  skipBlanks
  let cp ← checkpoint
  let left ← unaryWith operand
  iterate id (operatorPass operand cp power) left

end

/-! ## Expressions in statements -/

/-- An expression whose operators have at least the power `power`. Expressions nest at most `depth`
deep. -/
def binaryUpTo : (depth power : Nat) → Production (Option Tree)
  | 0, _ => pure none
  | depth + 1, power => binaryWith (binaryUpTo depth) power

/-- An expression whose operators have at least the power `power`. -/
def expressionAbove (power : Nat) : Production (Option Tree) := do
  binaryUpTo ((← look (·.remaining)) + 1) power

/-- An expression. -/
def expression : Production (Option Tree) := expressionAbove 0

/-- An expression whose node is not asked for. -/
def operand : Production Unit := do
  let _ ← expression

/-- What can be assigned to, in a statement. -/
def variable_ : Production Unit := do
  let _ ← variableWith expressionAbove

/-- What can be called as a command, in a statement. -/
def callee : Production Unit := do
  let _ ← calleeWith expressionAbove

/-- Arguments in parentheses, in a statement. -/
def argumentList : Production Unit := argumentListWith expressionAbove

/-- Whether a sign between the arguments of a command comes next. -/
def atArgumentSign : Production Bool :=
  look fun s => (s.peekSignificant 0).kind == .lexeme .comma ||
    (s.peekSignificant 0).kind == .lexeme .semicolon

/-- One step through the arguments of a command. -/
def commandArgumentPass (_ : Unit) : Production (Pass Unit Unit) := do
  if ← atStatementEnd then return .done ()
  if ← atArgumentSign then
    shiftNext
    return .again ()
  argumentWith expressionAbove
  if ← atArgumentSign then return .again ()
  return .done ()

/-- The arguments of a command, without parentheses around them. -/
def commandArguments : Production Unit := do
  skipBlanks
  within .argumentList do
    iterate (fun _ => ()) commandArgumentPass ()

end LosslessBasic.Grammar
