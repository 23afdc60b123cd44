import LosslessBasic.Grammar.Conditional
import LosslessBasic.Grammar.Designer
import LosslessBasic.Grammar.Loop
import LosslessBasic.Grammar.Procedure
import LosslessBasic.Grammar.Select

/-!
# Statements

What a statement is shows in its first token: a keyword opens a statement of its own, unless it is
soft and is used as a name; anything else is an assignment or a call. This module closes the circle
between statements and the bodies that hold them: a statement within a statement starts behind a
token that is moved first, so the number of tokens ahead bounds how deep statements nest.
-/

namespace LosslessBasic.Grammar

section

variable (statement : Production Unit)

/-- The statement behind modifiers, judged by the word behind them. -/
def modifiedStatement : Production Unit := do
  match ← look fun s => Lookahead.modifiedKind s.rest with
  | .keyword .sub | .keyword .function | .keyword .property => procedure statement
  | .keyword .const => constStatement
  | .keyword .type => typeStatement
  | .keyword .enum => enumStatement
  | .keyword .declare => declareStatement
  | .keyword .event => eventStatement
  | _ => dimStatement

/-- The statement that a keyword opens. -/
def keywordStatement? : Keyword → Option (Production Unit)
  | .if_ => some (ifStatement statement)
  | .select => some (selectStatement statement)
  | .for_ => some (forStatement statement)
  | .do_ => some (doStatement statement)
  | .while_ => some (whileStatement statement)
  | .with_ => some (withStatement statement)
  | .private_ | .public_ | .friend | .global | .static_ => some (modifiedStatement statement)
  | .sub | .function | .property => some (procedure statement)
  | .dim => some dimStatement
  | .const => some constStatement
  | .reDim => some reDimStatement
  | .erase => some eraseStatement
  | .type => some typeStatement
  | .enum => some enumStatement
  | .declare => some declareStatement
  | .event => some eventStatement
  | .implements => some implementsStatement
  | .raiseEvent => some raiseEventStatement
  | .begin => some designerStatement
  | .set => some (wordedAssignment .setStatement)
  | .let_ => some (wordedAssignment .letStatement)
  | .call => some callKeywordStatement
  | .end_ => some (wordStatement .endStatement)
  | .stop => some (wordStatement .stopStatement)
  | .goTo => some (jumpStatement .gotoStatement)
  | .goSub => some (jumpStatement .goSubStatement)
  | .return_ => some (wordStatement .returnStatement)
  | .resume => some resumeStatement
  | .exit => some exitStatement
  | .on_ => some onStatement
  | .line => some lineStatement
  | keyword => (rawKind? keyword).map rawStatement

/-- Whether a soft keyword opens a statement of its own at the cursor, and is no variable, object or
member of one. `Object` does so only in the header of a file, in front of an equals sign. -/
def softKeywordOpens (keyword : Keyword) (s : TokenStream) : Bool :=
  match keyword with
  | .lSet | .rSet | .mid | .midB => true
  | .object => (s.peekSignificant 1).kind == .lexeme .equal
  | _ =>
    !Lookahead.isAccessSign (s.peek 1).kind && (s.peekSignificant 1).kind != .lexeme .equal

/-- The statement that the token at the cursor opens as a keyword. -/
def openedStatement? (s : TokenStream) : Option (Production Unit) :=
  match s.current.kind with
  | .keyword keyword =>
    if !keyword.isSoft || softKeywordOpens keyword s then keywordStatement? statement keyword
    else none
  | _ => none

/-- The statement that replaces part of a text and starts with a name in front of parentheses, which
no keyword opens because of its dollar sign. -/
def replacement? (s : TokenStream) : Option (Production Unit) :=
  if (s.peekSignificant 1).kind == .lexeme .leftParen then
    if isNamed s.current "Mid$" then some (rawStatement .midStatement)
    else if isNamed s.current "MidB$" then some (rawStatement .midBStatement)
    else none
  else none

/-- A statement that no keyword opens. -/
def plainStatement : Production Unit := do
  let s := (← get).stream
  match replacement? s with
  | some production => production
  | none =>
    if Lookahead.startsAssignment s then assignmentStatement
    else if s.current.kind.isNameLike || Lookahead.isAccessSign s.current.kind then callStatement
    else unexpectedStatement

/-- The statement that starts with the token at the cursor. -/
def statementAtCursor : Production Unit := do
  if ← atLabel then labelStatement
  else (← look (openedStatement? statement)).getD plainStatement

/-- A statement whose inner statements are read by `statement`. -/
def statementWith : Production Unit := do
  setRecovering false
  skipBlanks
  note .statement (← current)
  statementAtCursor statement

end

/-- A statement. Statements nest at most `depth` deep; of a deeper one, only a token is moved. -/
def statementUpTo : (depth : Nat) → Production Unit
  | 0 => shift
  | depth + 1 => statementWith (statementUpTo depth)

/-- A whole source. -/
def source : Production Unit := do
  let depth := (← look (·.remaining)) + 1
  within .root do
    let _ ← statements (statementUpTo depth)

end LosslessBasic.Grammar
