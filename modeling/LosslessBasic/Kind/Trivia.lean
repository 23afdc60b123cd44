import LosslessBasic.Text.Bytes

/-!
# Trivia

The tokens between the significant ones. They are kept in the tree, so that it loses no byte.
-/

namespace LosslessBasic

/-- A token class without meaning for the grammar, line breaks apart. -/
inductive Trivia where
  /-- A run of blanks. -/
  | whitespace
  /-- A line break, which ends a statement. -/
  | newline
  /-- A comment after an apostrophe. -/
  | endOfLineComment
  /-- A comment after the word `Rem`. -/
  | remComment
  /-- An underscore that joins a line to the next one. -/
  | lineContinuation
  deriving DecidableEq, Repr

namespace Trivia

/-- All trivia, in the order of their numbers. -/
def all : List Trivia :=
  [.whitespace, .newline, .endOfLineComment, .remComment, .lineContinuation]

/-- The name of a trivia class. -/
def name : Trivia → String
  | whitespace => "Whitespace"
  | newline => "Newline"
  | endOfLineComment => "EndOfLineComment"
  | remComment => "RemComment"
  | lineContinuation => "LineContinuation"

/-- How messages describe a trivia class. -/
def spelling : Trivia → String
  | whitespace => "whitespace"
  | newline => "newline"
  | endOfLineComment => "comment"
  | remComment => "REM comment"
  | lineContinuation => "line continuation"

/-- Whether the trivia may stand within a logical line, between the tokens of a statement. -/
def isInline : Trivia → Bool
  | whitespace | lineContinuation => true
  | _ => false

/-- Whether the trivia is a comment of either form. -/
def isComment : Trivia → Bool
  | endOfLineComment | remComment => true
  | _ => false

end Trivia

end LosslessBasic
