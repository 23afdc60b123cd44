import LosslessBasic.Proofs.Grammar.Isolation
import LosslessBasic.Proofs.Program.Text
import Mathlib

/-!
# The lines of a program by themselves

Each kind of line that a program is made of, by itself: the kinds of its tokens, which come from its
words, and what reading it comes to, which depends on the kinds alone. Both are found by evaluation.
-/

namespace LosslessBasic.Program

set_option maxRecDepth 2000

open Grammar

/-! ## Simple statements -/

/-- The kinds of the tokens of `name = value`. -/
def assignmentKinds : List Kind :=
  [.lexeme .identifier, .trivia .whitespace, .lexeme .equal, .trivia .whitespace,
    .lexeme .integerLiteral]

/-- The kinds of the tokens of a simple statement. -/
def Simple.kinds : Simple → List Kind
  | assignment => assignmentKinds
  | accumulation =>
    [.lexeme .identifier, .trivia .whitespace, .lexeme .equal, .trivia .whitespace,
     .lexeme .identifier, .trivia .whitespace, .lexeme .plus, .trivia .whitespace,
     .lexeme .identifier, .trivia .whitespace, .lexeme .star, .trivia .whitespace,
     .lexeme .integerLiteral]
  | call =>
    [.keyword .call, .trivia .whitespace, .lexeme .identifier, .lexeme .leftParen,
     .lexeme .integerLiteral, .lexeme .comma, .trivia .whitespace, .lexeme .integerLiteral,
     .lexeme .rightParen]
  | print =>
    [.lexeme .identifier, .lexeme .period, .keyword .print, .trivia .whitespace,
     .lexeme .stringLiteral, .lexeme .semicolon, .trivia .whitespace, .lexeme .identifier]
  | declaration =>
    [.keyword .dim, .trivia .whitespace, .lexeme .identifier, .trivia .whitespace, .keyword .as,
     .trivia .whitespace, .keyword .long]
  | replacement =>
    [.lexeme .identifier, .trivia .whitespace, .lexeme .equal, .trivia .whitespace,
     .lexeme .identifier, .lexeme .leftParen, .lexeme .identifier, .lexeme .comma,
     .trivia .whitespace, .lexeme .integerLiteral, .lexeme .rightParen, .trivia .whitespace,
     .lexeme .ampersand, .trivia .whitespace, .lexeme .identifier, .lexeme .leftParen,
     .lexeme .integerLiteral, .lexeme .rightParen, .trivia .whitespace, .trivia .endOfLineComment]
  | creation =>
    [.keyword .set, .trivia .whitespace, .lexeme .identifier, .trivia .whitespace, .lexeme .equal,
     .trivia .whitespace, .keyword .new, .trivia .whitespace, .lexeme .identifier]
  | message =>
    [.lexeme .identifier, .trivia .whitespace, .lexeme .stringLiteral, .lexeme .comma,
     .trivia .whitespace, .lexeme .identifier]
  | pair => assignmentKinds ++ .lexeme .colon :: .trivia .whitespace :: assignmentKinds

theorem spells_simple (statement : Simple) : Lexer.Spells statement.words statement.kinds := by
  cases statement <;> decide

set_option maxRecDepth 4000 in
/-- A simple statement is read to the end of its line, and the first of two to the colon between
them. -/
theorem digests_simple (statement : Simple) (depth : Nat) :
    Digests false (statementUpTo (depth + 1)) (statement.kinds ++ [.trivia .newline]) .lineBreak
      (if statement = .pair then 8 else 0) (if statement = .pair then .none else .lineBreak) := by
  intro tokens a blocks targets _
  cases statement <;> cbv

/-- An assignment behind a colon. -/
theorem digests_assignment (depth : Nat) :
    Digests false (statementUpTo (depth + 1)) (assignmentKinds ++ [.trivia .newline]) .colon 0
      .lineBreak := by
  intro tokens a blocks targets _
  cbv

/-- The kinds of the tokens of an assignment to a member of what a `With` names. -/
def memberKinds : List Kind :=
  [.lexeme .period, .lexeme .identifier, .trivia .whitespace, .lexeme .equal, .trivia .whitespace,
   .lexeme .integerLiteral]

/-- The member in a `With` is spelled as its kinds. -/
theorem spells_member : Lexer.Spells ".Value = 1" memberKinds := by decide

/-- The member in a `With` is read as a statement of its own line. -/
theorem digests_member (depth : Nat) :
    Digests true (statementUpTo (depth + 1)) (memberKinds ++ [.trivia .newline]) .lineBreak 0
      .lineBreak := by
  intro tokens a blocks targets htargets
  obtain ⟨target, targets, rfl⟩ := List.exists_cons_of_ne_nil (htargets rfl)
  cases target <;> cbv

/-! ## Blocks with one body -/

namespace Form

/-- The kinds of the tokens in front of the body. -/
def openingKinds : Form → List Kind
  | for_ =>
    [.keyword .for_, .trivia .whitespace, .lexeme .identifier, .trivia .whitespace, .lexeme .equal,
     .trivia .whitespace, .lexeme .integerLiteral, .trivia .whitespace, .keyword .to_,
     .trivia .whitespace, .lexeme .integerLiteral, .trivia .whitespace, .keyword .step,
     .trivia .whitespace, .lexeme .integerLiteral]
  | doWhile =>
    [.keyword .do_, .trivia .whitespace, .keyword .while_, .trivia .whitespace, .lexeme .identifier,
     .trivia .whitespace, .lexeme .less, .trivia .whitespace, .lexeme .integerLiteral]
  | do_ => [.keyword .do_]
  | while_ =>
    [.keyword .while_, .trivia .whitespace, .lexeme .identifier, .trivia .whitespace,
     .lexeme .greater, .trivia .whitespace, .lexeme .integerLiteral]
  | with_ => [.keyword .with_, .trivia .whitespace, .lexeme .identifier]

/-- The kinds of the tokens behind the body. -/
def closingKinds : Form → List Kind
  | for_ => [.keyword .next, .trivia .whitespace, .lexeme .identifier]
  | doWhile | do_ =>
    [.keyword .loop, .trivia .whitespace, .keyword .until_, .trivia .whitespace,
      .lexeme .identifier, .trivia .whitespace, .lexeme .greater, .trivia .whitespace,
        .lexeme .integerLiteral]
  | while_ => [.keyword .wend]
  | with_ => [.keyword .end_, .trivia .whitespace, .keyword .with_]

/-- The reading of the line in front of the body, which gives the header of a `With`. -/
def header : Form → Production (Option Tree)
  | for_ => do
    shift
    forHeader
    finishStatement
    return none
  | doWhile | do_ => do
    shift
    optionalLoopCondition
    finishStatement
    return none
  | while_ => do
    shift
    operand
    finishStatement
    return none
  | with_ => do
    shift
    let target ← expression
    finishStatement
    return target

/-- The reading of the line behind the body. -/
def footer : Form → Production Unit
  | for_ => nextClause
  | doWhile | do_ => do
    note .close (← next)
    shiftNext
    optionalLoopCondition
    finishStatement
  | while_ => do
    note .close (← next)
    shiftNext
    finishStatement
  | with_ => closeBlock

theorem spells_opening (form : Form) : Lexer.Spells form.opening form.openingKinds := by
  cases form <;> decide

theorem spells_closing (form : Form) : Lexer.Spells form.closing form.closingKinds := by
  cases form <;> decide

theorem digests_header (form : Form) (before : Separator) :
    Digests false form.header (form.openingKinds ++ [.trivia .newline]) before 0 .lineBreak := by
  intro tokens a blocks targets _
  cases form <;> cbv

theorem digests_footer (form : Form) (before : Separator) :
    Digests false form.footer (form.closingKinds ++ [.trivia .newline]) before 0 .lineBreak := by
  intro tokens a blocks targets _
  cases form <;> cbv

end Form

/-! ## If -/

/-- The kinds of the tokens of the condition of an `If`, whose first word is given and which is
compared in the given way. -/
def conditionKinds (word : Keyword) (sign : Lexeme) : List Kind :=
  [.keyword word, .trivia .whitespace, .lexeme .identifier, .trivia .whitespace, .lexeme sign,
   .trivia .whitespace, .lexeme .integerLiteral, .trivia .whitespace, .keyword .then_]

theorem spells_if : Lexer.Spells "If a > 1 Then" (conditionKinds .if_ .greater) := by decide

theorem spells_elseIf : Lexer.Spells "ElseIf a = 0 Then" (conditionKinds .elseIf .equal) := by
  decide

theorem spells_else : Lexer.Spells "Else" [.keyword .else_] := by decide

/-- The line break that ends the header of an `If` is left for the time being. -/
theorem digests_ifHeader (before : Separator) :
    Digests false ifHeader (conditionKinds .if_ .greater ++ [.trivia .newline]) before 1
      before := by
  intro tokens a blocks targets _
  cbv

/-- The end of a line ends a statement. -/
theorem digests_lineEnd (before : Separator) :
    Digests false finishStatement [.trivia .newline] before 0 .lineBreak := by
  intro tokens a blocks targets _
  cbv

/-- The reading of the line of an `ElseIf`. -/
def elseIfLine : Production Unit := do
  ifHeader
  finishStatement

theorem digests_elseIfLine (before : Separator) :
    Digests false elseIfLine (conditionKinds .elseIf .equal ++ [.trivia .newline]) before 0
      .lineBreak := by
  intro tokens a blocks targets _
  cbv

/-- The reading of the line of an `Else`. -/
def elseLine : Production Unit := do
  shiftNext
  finishStatement

theorem digests_elseLine (before : Separator) :
    Digests false elseLine [.keyword .else_, .trivia .newline] before 0 .lineBreak := by
  intro tokens a blocks targets _
  cbv

/-! ## Select Case -/

theorem spells_select : Lexer.Spells "Select Case n"
    [.keyword .select, .trivia .whitespace, .keyword .case, .trivia .whitespace,
     .lexeme .identifier] := by
  decide

/-- The reading of the line of a `Select Case`. -/
def selectLine : Production Unit := do
  shift
  if ← expect (.keyword .case) then operand
  finishStatement

theorem digests_selectLine (before : Separator) : Digests false selectLine
    [.keyword .select, .trivia .whitespace, .keyword .case, .trivia .whitespace,
      .lexeme .identifier, .trivia .newline] before 0 .lineBreak := by
  intro tokens a blocks targets _
  cbv

/-- The kinds of the tokens of the line that opens a clause. -/
def Test.kinds : Test → List Kind
  | values =>
    [.keyword .case, .trivia .whitespace, .lexeme .integerLiteral, .lexeme .comma,
     .trivia .whitespace, .lexeme .integerLiteral, .trivia .whitespace, .keyword .to_,
     .trivia .whitespace, .lexeme .integerLiteral]
  | comparison =>
    [.keyword .case, .trivia .whitespace, .keyword .is, .trivia .whitespace, .lexeme .greater,
     .trivia .whitespace, .lexeme .integerLiteral]
  | else_ => [.keyword .case, .trivia .whitespace, .keyword .else_]

theorem spells_test (test : Test) : Lexer.Spells test.words test.kinds := by
  cases test <;> decide

/-- The reading of the line that opens a clause. -/
def Test.line (test : Test) : Production Unit := do
  setRecovering false
  shiftNext
  if test = .else_ then shiftNext else commaList caseTest
  finishStatement

theorem digests_test (test : Test) (before : Separator) :
    Digests false test.line (test.kinds ++ [.trivia .newline]) before 0 .lineBreak := by
  intro tokens a blocks targets _
  cases test <;> cbv

/-! ## Closers of two words -/

/-- The kinds of the tokens of a closer of two words. -/
def endKinds (word : Keyword) : List Kind := [.keyword .end_, .trivia .whitespace, .keyword word]

theorem spells_endIf : Lexer.Spells "End If" (endKinds .if_) := by decide

theorem spells_endSelect : Lexer.Spells "End Select" (endKinds .select) := by decide

theorem spells_endSub : Lexer.Spells "End Sub" (endKinds .sub) := by decide

theorem digests_closeBlock (word : Keyword) (before : Separator) :
    Digests false closeBlock (endKinds word ++ [.trivia .newline]) before 0 .lineBreak := by
  intro tokens a blocks targets _
  cbv

/-! ## The procedure -/

theorem spells_sub : Lexer.Spells "Sub Main()"
    [.keyword .sub, .trivia .whitespace, .lexeme .identifier, .lexeme .leftParen,
     .lexeme .rightParen] := by
  decide

/-- The reading of the header of a `Sub`. -/
def subLine : Production Unit := do
  shiftDeclarator
  note .procedure (← next)
  signature
  finishStatement

theorem digests_subLine : Digests false subLine
    [.keyword .sub, .trivia .whitespace, .lexeme .identifier, .lexeme .leftParen,
      .lexeme .rightParen, .trivia .newline] .lineBreak 0 .lineBreak := by
  intro tokens a blocks targets _
  cbv

end LosslessBasic.Program
