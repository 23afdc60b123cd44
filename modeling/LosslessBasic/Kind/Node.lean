import LosslessBasic.Text.Bytes

/-!
# Node kinds

The kinds of the composite nodes of a tree.
-/

namespace LosslessBasic

/-- The kind of a composite node. -/
inductive NodeKind where
  | root | unknown | statementList | versionStatement | objectStatement | attributeStatement
  | propertiesBlock | propertyAssignment | optionStatement | defTypeStatement | declareStatement
  | eventStatement | implementsStatement | subStatement | functionStatement | propertyStatement
  | parameterList | parameter | dimStatement | constStatement | variableDeclaration | asClause
  | typeReference | arrayBounds | arrayBound | reDimStatement | eraseStatement | typeStatement
  | typeMember | enumStatement | enumMember | ifStatement | elseIfClause | elseClause
  | selectCaseStatement | caseClause | caseElseClause | caseRange | caseIs | forStatement
  | forEachStatement | doStatement | whileStatement | withStatement | assignmentStatement
  | setStatement | letStatement | callStatement | raiseEventStatement | labelStatement
  | gotoStatement | goSubStatement | returnStatement | resumeStatement | exitStatement
  | onErrorStatement | onGoToStatement | onGoSubStatement | endStatement | stopStatement
  | appActivateStatement | beepStatement | chDirStatement | chDriveStatement | closeStatement
  | deleteSettingStatement | errorStatement | fileCopyStatement | getStatement | putStatement
  | inputStatement | lineInputStatement | killStatement | loadStatement | unloadStatement
  | lockStatement | unlockStatement | lSetStatement | rSetStatement | midStatement | midBStatement
  | mkDirStatement | rmDirStatement | nameStatement | openStatement | printStatement
  | randomizeStatement | resetStatement | savePictureStatement | saveSettingStatement
  | seekStatement | sendKeysStatement | setAttrStatement | widthStatement | writeStatement
  | binaryExpression | unaryExpression | parenthesizedExpression | identifierExpression
  | numericLiteralExpression | stringLiteralExpression | dateLiteralExpression
  | booleanLiteralExpression | literalExpression | memberAccessExpression
  | dictionaryAccessExpression | callExpression | addressOfExpression | newExpression
  | typeOfExpression | argumentList | argument
  deriving DecidableEq, Repr

namespace NodeKind

/-- All node kinds, in the order of their numbers. -/
def all : List NodeKind :=
  [.root, .unknown, .statementList, .versionStatement, .objectStatement, .attributeStatement,
   .propertiesBlock, .propertyAssignment, .optionStatement, .defTypeStatement, .declareStatement,
   .eventStatement, .implementsStatement, .subStatement, .functionStatement, .propertyStatement,
   .parameterList, .parameter, .dimStatement, .constStatement, .variableDeclaration, .asClause,
   .typeReference, .arrayBounds, .arrayBound, .reDimStatement, .eraseStatement, .typeStatement,
   .typeMember, .enumStatement, .enumMember, .ifStatement, .elseIfClause, .elseClause,
   .selectCaseStatement, .caseClause, .caseElseClause, .caseRange, .caseIs, .forStatement,
   .forEachStatement, .doStatement, .whileStatement, .withStatement, .assignmentStatement,
   .setStatement, .letStatement, .callStatement, .raiseEventStatement, .labelStatement,
   .gotoStatement, .goSubStatement, .returnStatement, .resumeStatement, .exitStatement,
   .onErrorStatement, .onGoToStatement, .onGoSubStatement, .endStatement, .stopStatement,
   .appActivateStatement, .beepStatement, .chDirStatement, .chDriveStatement, .closeStatement,
   .deleteSettingStatement, .errorStatement, .fileCopyStatement, .getStatement, .putStatement,
   .inputStatement, .lineInputStatement, .killStatement, .loadStatement, .unloadStatement,
   .lockStatement, .unlockStatement, .lSetStatement, .rSetStatement, .midStatement,
   .midBStatement, .mkDirStatement, .rmDirStatement, .nameStatement, .openStatement,
   .printStatement, .randomizeStatement, .resetStatement, .savePictureStatement,
   .saveSettingStatement, .seekStatement, .sendKeysStatement, .setAttrStatement, .widthStatement,
   .writeStatement, .binaryExpression, .unaryExpression, .parenthesizedExpression,
   .identifierExpression, .numericLiteralExpression, .stringLiteralExpression,
   .dateLiteralExpression, .booleanLiteralExpression, .literalExpression,
   .memberAccessExpression, .dictionaryAccessExpression, .callExpression, .addressOfExpression,
   .newExpression, .typeOfExpression, .argumentList, .argument]

/-- The name of a node kind. -/
def name : NodeKind → String
  | root => "Root"
  | unknown => "Unknown"
  | statementList => "StatementList"
  | versionStatement => "VersionStatement"
  | objectStatement => "ObjectStatement"
  | attributeStatement => "AttributeStatement"
  | propertiesBlock => "PropertiesBlock"
  | propertyAssignment => "PropertyAssignment"
  | optionStatement => "OptionStatement"
  | defTypeStatement => "DefTypeStatement"
  | declareStatement => "DeclareStatement"
  | eventStatement => "EventStatement"
  | implementsStatement => "ImplementsStatement"
  | subStatement => "SubStatement"
  | functionStatement => "FunctionStatement"
  | propertyStatement => "PropertyStatement"
  | parameterList => "ParameterList"
  | parameter => "Parameter"
  | dimStatement => "DimStatement"
  | constStatement => "ConstStatement"
  | variableDeclaration => "VariableDeclaration"
  | asClause => "AsClause"
  | typeReference => "TypeReference"
  | arrayBounds => "ArrayBounds"
  | arrayBound => "ArrayBound"
  | reDimStatement => "ReDimStatement"
  | eraseStatement => "EraseStatement"
  | typeStatement => "TypeStatement"
  | typeMember => "TypeMember"
  | enumStatement => "EnumStatement"
  | enumMember => "EnumMember"
  | ifStatement => "IfStatement"
  | elseIfClause => "ElseIfClause"
  | elseClause => "ElseClause"
  | selectCaseStatement => "SelectCaseStatement"
  | caseClause => "CaseClause"
  | caseElseClause => "CaseElseClause"
  | caseRange => "CaseRange"
  | caseIs => "CaseIs"
  | forStatement => "ForStatement"
  | forEachStatement => "ForEachStatement"
  | doStatement => "DoStatement"
  | whileStatement => "WhileStatement"
  | withStatement => "WithStatement"
  | assignmentStatement => "AssignmentStatement"
  | setStatement => "SetStatement"
  | letStatement => "LetStatement"
  | callStatement => "CallStatement"
  | raiseEventStatement => "RaiseEventStatement"
  | labelStatement => "LabelStatement"
  | gotoStatement => "GotoStatement"
  | goSubStatement => "GoSubStatement"
  | returnStatement => "ReturnStatement"
  | resumeStatement => "ResumeStatement"
  | exitStatement => "ExitStatement"
  | onErrorStatement => "OnErrorStatement"
  | onGoToStatement => "OnGoToStatement"
  | onGoSubStatement => "OnGoSubStatement"
  | endStatement => "EndStatement"
  | stopStatement => "StopStatement"
  | appActivateStatement => "AppActivateStatement"
  | beepStatement => "BeepStatement"
  | chDirStatement => "ChDirStatement"
  | chDriveStatement => "ChDriveStatement"
  | closeStatement => "CloseStatement"
  | deleteSettingStatement => "DeleteSettingStatement"
  | errorStatement => "ErrorStatement"
  | fileCopyStatement => "FileCopyStatement"
  | getStatement => "GetStatement"
  | putStatement => "PutStatement"
  | inputStatement => "InputStatement"
  | lineInputStatement => "LineInputStatement"
  | killStatement => "KillStatement"
  | loadStatement => "LoadStatement"
  | unloadStatement => "UnloadStatement"
  | lockStatement => "LockStatement"
  | unlockStatement => "UnlockStatement"
  | lSetStatement => "LSetStatement"
  | rSetStatement => "RSetStatement"
  | midStatement => "MidStatement"
  | midBStatement => "MidBStatement"
  | mkDirStatement => "MkDirStatement"
  | rmDirStatement => "RmDirStatement"
  | nameStatement => "NameStatement"
  | openStatement => "OpenStatement"
  | printStatement => "PrintStatement"
  | randomizeStatement => "RandomizeStatement"
  | resetStatement => "ResetStatement"
  | savePictureStatement => "SavePictureStatement"
  | saveSettingStatement => "SaveSettingStatement"
  | seekStatement => "SeekStatement"
  | sendKeysStatement => "SendKeysStatement"
  | setAttrStatement => "SetAttrStatement"
  | widthStatement => "WidthStatement"
  | writeStatement => "WriteStatement"
  | binaryExpression => "BinaryExpression"
  | unaryExpression => "UnaryExpression"
  | parenthesizedExpression => "ParenthesizedExpression"
  | identifierExpression => "IdentifierExpression"
  | numericLiteralExpression => "NumericLiteralExpression"
  | stringLiteralExpression => "StringLiteralExpression"
  | dateLiteralExpression => "DateLiteralExpression"
  | booleanLiteralExpression => "BooleanLiteralExpression"
  | literalExpression => "LiteralExpression"
  | memberAccessExpression => "MemberAccessExpression"
  | dictionaryAccessExpression => "DictionaryAccessExpression"
  | callExpression => "CallExpression"
  | addressOfExpression => "AddressOfExpression"
  | newExpression => "NewExpression"
  | typeOfExpression => "TypeOfExpression"
  | argumentList => "ArgumentList"
  | argument => "Argument"

end NodeKind

end LosslessBasic
