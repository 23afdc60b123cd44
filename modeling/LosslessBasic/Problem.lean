import LosslessBasic.Block
import LosslessBasic.Token

/-!
# Problems

Everything that can be wrong with a program, as causes. Codes are stable; the wording of the
messages stands in `Problem.message` and in `Wanted.text`.
-/

namespace LosslessBasic

/-- The stable code of a family of problems. -/
inductive Code where
  | expectedToken | unknownCharacter | unterminatedString | unexpectedToken | straySeparator
  | missingBlockEnd | invalidEncoding | implicitMemberOutsideWith | unmatchedBlockEnd
  deriving DecidableEq, Repr

/-- How a code is written. -/
def Code.text : Code → String
  | expectedToken => "B0001"
  | unknownCharacter => "B0002"
  | unterminatedString => "B0003"
  | unexpectedToken => "B0004"
  | straySeparator => "B0005"
  | missingBlockEnd => "B0006"
  | invalidEncoding => "B0007"
  | implicitMemberOutsideWith => "B0008"
  | unmatchedBlockEnd => "B0009"

/-- What a rule of the grammar asks for. -/
inductive Wanted where
  /-- A token of one kind. -/
  | token (kind : Kind)
  /-- An expression. -/
  | expression
  /-- The name of a variable. -/
  | variableName
  /-- The name of a procedure. -/
  | procedureName
  /-- The name of a type. -/
  | typeName
  /-- The name of an enumeration. -/
  | enumName
  /-- The name of a member. -/
  | memberName
  /-- The name of a parameter. -/
  | parameterName
  /-- The name of an event. -/
  | eventName
  /-- The target of a jump. -/
  | label
  /-- The word that says which accessor of a property follows. -/
  | accessor
  /-- The word that says what an external declaration declares. -/
  | procedureKeyword
  /-- The word that says what an exit leaves. -/
  | exitTarget
  /-- A comparison behind `Is` in a case test. -/
  | comparison
  deriving DecidableEq, Repr

/-- How a message says what is asked for. -/
def Wanted.text : Wanted → Bytes
  | token kind => Bytes.quoted (Bytes.ofString kind.spelling)
  | expression => Bytes.ofString "expression"
  | variableName => Bytes.ofString "variable name"
  | procedureName => Bytes.ofString "procedure name"
  | typeName => Bytes.ofString "type name"
  | enumName => Bytes.ofString "enum name"
  | memberName => Bytes.ofString "member name"
  | parameterName => Bytes.ofString "parameter name"
  | eventName => Bytes.ofString "event name"
  | label => Bytes.ofString "label or line number"
  | accessor => Bytes.ofString "'Get', 'Let' or 'Set'"
  | procedureKeyword => Bytes.ofString "'Sub' or 'Function'"
  | exitTarget => Bytes.ofString "'Do', 'For', 'Function', 'Property' or 'Sub' after 'Exit'"
  | comparison => Bytes.ofString "comparison operator after 'Is'"

/-- What can be wrong with a program. -/
inductive Problem where
  /-- A rule asks for something else than the token it meets. -/
  | expected (wanted : Wanted) (got : Token)
  /-- A character starts no token. -/
  | unknownCharacter (text : Bytes)
  /-- A text is not closed on its line. -/
  | unterminatedString
  /-- A token starts no statement. -/
  | unexpectedStart (got : Token)
  /-- A token is left over behind a complete statement. -/
  | leftover (got : Token)
  /-- A second `Else` stands in a single-line `If`. -/
  | secondElse
  /-- A line of a `Select Case` outside its clauses. -/
  | expectedCase (got : Token)
  /-- A colon separates no two statements. -/
  | straySeparator
  /-- A block ends without its closer. -/
  | missingCloser (block : Block) (got : Token)
  /-- The source is not UTF-8. -/
  | invalidEncoding
  /-- An access starts with a dot or bang outside of every `With`. -/
  | memberOutsideWith (access : Token)
  /-- A closer closes nothing. -/
  | unmatchedCloser (written : Bytes) (closer : Closer)
  /-- A variable of a `Next` names no open loop. -/
  | unmatchedNext (named : Token)
  deriving DecidableEq, Repr

namespace Problem

/-- The code of a problem. -/
def code : Problem → Code
  | expected .. => .expectedToken
  | unknownCharacter .. => .unknownCharacter
  | unterminatedString => .unterminatedString
  | unexpectedStart .. | leftover .. | secondElse | expectedCase .. => .unexpectedToken
  | straySeparator => .straySeparator
  | missingCloser .. => .missingBlockEnd
  | invalidEncoding => .invalidEncoding
  | memberOutsideWith .. => .implicitMemberOutsideWith
  | unmatchedCloser .. | unmatchedNext .. => .unmatchedBlockEnd

/-- The message of a problem. -/
def message : Problem → Bytes
  | expected wanted got =>
    Bytes.ofString "expected " ++ wanted.text ++ Bytes.ofString ", got " ++ got.describe
  | unknownCharacter text => Bytes.ofString "unknown character " ++ Bytes.quoted text
  | unterminatedString => Bytes.ofString "unterminated string literal"
  | unexpectedStart got =>
    Bytes.ofString "unexpected " ++ got.describe ++ Bytes.ofString " at start of statement"
  | leftover got =>
    Bytes.ofString "unexpected " ++ got.describe ++ Bytes.ofString ", expected end of statement"
  | secondElse => Bytes.ofString "unexpected 'Else' in single-line If"
  | expectedCase got => Bytes.ofString "expected 'Case', got " ++ got.describe
  | straySeparator => Bytes.ofString "unexpected statement separator ':'"
  | missingCloser block got =>
    Bytes.ofString "missing " ++ Bytes.quoted (Bytes.ofString block.closer) ++
      Bytes.ofString " before " ++ got.describe
  | invalidEncoding => Bytes.ofString "invalid UTF-8 byte sequence"
  | memberOutsideWith access =>
    Bytes.ofString "leading " ++ Bytes.quoted access.text ++
      Bytes.ofString " member access outside a With block"
  | unmatchedCloser written closer =>
    Bytes.quoted written ++ Bytes.ofString " without a matching " ++
      Bytes.ofString closer.opener
  | unmatchedNext named =>
    Bytes.ofString "'Next' variable " ++ named.describe ++
      Bytes.ofString " without a matching 'For'"

end Problem

end LosslessBasic
