import LosslessBasic.Grammar.Body

/-!
# Procedures

`Sub`, `Function` and `Property`, with their parameters and their bodies.
-/

namespace LosslessBasic.Grammar

/-- The node and the block of a procedure, judged by the word behind its modifiers. -/
def procedureForm : Kind → NodeKind × Block
  | .keyword .function => (.functionStatement, .function)
  | .keyword .property => (.propertyStatement, .property)
  | _ => (.subStatement, .sub)

/-- The word that says which accessor of a property follows. Says whether it was there. -/
def accessor : Production Bool := do
  if Lookahead.isAccessor (← nextKind) then
    shiftNext
    return true
  failExpected .accessor
  return false

/-- The name of a procedure with its parameters and the type of its result. -/
def signature : Production Unit := do
  if ← hasName .procedureName then
    optionalParameterList
    optionalAsClause

/-- A procedure whose statements are read by `statement`. -/
def procedure (statement : Production Unit) : Production Unit := do
  let (node, block) := procedureForm (← look fun s => Lookahead.modifiedKind s.rest)
  within node do
    shiftDeclarator
    note .procedure (← next)
    let named ← if block == .property then accessor else pure true
    if named then signature
    finishStatement
    let stop ← blockBody statement block
    blockEnd stop

end LosslessBasic.Grammar
