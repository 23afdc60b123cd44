import LosslessBasic.Kind.Trivia
import LosslessBasic.Kind.Lexeme
import LosslessBasic.Kind.Keyword
import LosslessBasic.Kind.Node

/-!
# Kinds

A kind classifies a token or a node: trivia, lexemes and keywords are the kinds of tokens, node
kinds those of composite nodes. Kinds are numbered without gaps, family after family; a number past
the last kind is kept as it is and has no name.
-/

namespace LosslessBasic

/-- The kind of a token or of a node. -/
inductive Kind where
  /-- A token without meaning for the grammar. -/
  | trivia (t : Trivia)
  /-- A significant token other than a keyword. -/
  | lexeme (l : Lexeme)
  /-- A keyword token. -/
  | keyword (k : Keyword)
  /-- A composite node. -/
  | node (n : NodeKind)
  /-- A number that no kind has. -/
  | unassigned (number : UInt16)
  deriving DecidableEq, Repr

namespace Kind

instance : Inhabited Kind := ⟨.lexeme .endOfFile⟩

/-- All kinds, in the order of their numbers. -/
def all : List Kind :=
  Trivia.all.map .trivia ++ Lexeme.all.map .lexeme ++ Keyword.all.map .keyword ++
    NodeKind.all.map .node

/-- The kind of a given number. -/
def ofNumber (number : UInt16) : Kind := all.getD number.toNat (.unassigned number)

/-- The number of a kind. -/
def number : Kind → Nat
  | unassigned n => n.toNat
  | k => all.idxOf k

/-- The name of a kind, a question mark for a number that no kind has. -/
def name : Kind → String
  | trivia t => t.name
  | lexeme l => l.name
  | keyword k => "Keyword" ++ k.spelling
  | node n => n.name
  | unassigned _ => "?"

/-- How messages spell a kind. -/
def spelling : Kind → String
  | trivia t => t.spelling
  | lexeme l => l.spelling
  | keyword k => k.spelling
  | node n => n.name
  | unassigned _ => "?"

/-- The kind of a given name. -/
def ofName? (name : String) : Option Kind := all.find? fun k => k.name == name

/-- Whether the kind is that of a token without meaning for the grammar. -/
def isTrivia : Kind → Bool
  | trivia _ => true
  | _ => false

/-- Whether the kind is that of trivia between the tokens of a statement. -/
def isInlineTrivia : Kind → Bool
  | trivia t => t.isInline
  | _ => false

/-- Whether the kind is that of a comment. -/
def isComment : Kind → Bool
  | trivia t => t.isComment
  | _ => false

/-- Whether the kind is that of a keyword. -/
def isKeyword : Kind → Bool
  | keyword _ => true
  | _ => false

/-- Whether the kind is that of a soft keyword. -/
def isSoftKeyword : Kind → Bool
  | keyword k => k.isSoft
  | _ => false

/-- Whether the kind is that of a literal token. -/
def isLiteral : Kind → Bool
  | lexeme l => l.isLiteral
  | _ => false

/-- Whether the kind is that of a numeric literal. -/
def isNumericLiteral : Kind → Bool
  | lexeme l => l.isNumber
  | _ => false

/-- Whether the kind is that of a token. -/
def isToken : Kind → Bool
  | trivia _ | lexeme _ | keyword _ => true
  | node _ | unassigned _ => false

/-- Whether the kind is that of a composite node. -/
def isNode : Kind → Bool
  | node _ => true
  | _ => false

/-- Whether the kind is that of a token whose text was reported when it was read. -/
def isLexicalError : Kind → Bool
  | lexeme l => l.isError
  | _ => false

/-- Whether a token of the kind serves as a name where a name is asked for. -/
def isNameLike : Kind → Bool
  | lexeme .identifier => true
  | keyword k => k.isSoft
  | _ => false

/-- Whether a token of the kind serves as the name of a member after a dot or a bang. -/
def isMemberName : Kind → Bool
  | lexeme .identifier | keyword _ => true
  | _ => false

end Kind

end LosslessBasic
