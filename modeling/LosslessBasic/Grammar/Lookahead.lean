import LosslessBasic.Token.Stream

/-!
# Looking further ahead

Some statements show what they are only after several tokens: an assignment by the equals sign
behind its target, a procedure by the word behind its modifiers. These look-aheads read the tokens
from the cursor on, as a list.
-/

namespace LosslessBasic.Lookahead

/-- The kind of the first token; the end of the source behind the last one. -/
def frontKind : List Token → Kind
  | [] => .lexeme .endOfFile
  | t :: _ => t.kind

/-- The tokens without the inline trivia in front of them. -/
def afterBlanks (tokens : List Token) : List Token :=
  tokens.dropWhile fun t => t.kind.isInlineTrivia

/-- A word that may stand in front of a declaration. -/
def isModifier : Kind → Bool
  | .keyword .private_ | .keyword .public_ | .keyword .friend | .keyword .global
  | .keyword .static_ => true
  | _ => false

/-- The tokens without the modifiers in front of them. -/
def afterModifiers (tokens : List Token) : List Token :=
  tokens.dropWhile fun t => t.kind.isInlineTrivia || isModifier t.kind

/-- The kind of the first token that is no modifier. -/
def modifiedKind (tokens : List Token) : Kind := frontKind (afterModifiers tokens)

/-- A word that says which accessor of a property follows. -/
def isAccessor : Kind → Bool
  | .keyword .get | .keyword .let_ | .keyword .set => true
  | _ => false

/-- Whether the header of a procedure comes next. -/
def startsProcedure (tokens : List Token) : Bool :=
  match afterModifiers tokens with
  | [] => false
  | t :: rest =>
    match t.kind with
    | .keyword .sub | .keyword .function => true
    | .keyword .property => isAccessor (frontKind (afterBlanks rest))
    | _ => false

/-- A sign in front of the name of a member. -/
def isAccessSign : Kind → Bool
  | .lexeme .period | .lexeme .bang => true
  | _ => false

/-- The tokens behind the parenthesis that closes the last of `depth` open ones, if it stands on
the same line. -/
def afterGroup? (depth : Nat) : List Token → Option (List Token)
  | [] => none
  | t :: rest =>
    match t.kind with
    | .lexeme .leftParen => afterGroup? (depth + 1) rest
    | .lexeme .rightParen => if depth ≤ 1 then some rest else afterGroup? (depth - 1) rest
    | .trivia .newline | .lexeme .endOfFile => none
    | _ => afterGroup? depth rest

/-- Whether members and arguments and then an equals sign come next. At most `passes` members and
argument lists are looked at. -/
def assignedAfterSuffixes : (passes : Nat) → List Token → Bool
  | 0, _ => false
  | passes + 1, tokens =>
    if isAccessSign (frontKind tokens) then
      (frontKind tokens.tail).isMemberName && assignedAfterSuffixes passes (tokens.drop 2)
    else
      match afterBlanks tokens with
      | [] => false
      | t :: rest =>
        if t.kind == .lexeme .leftParen then
          match afterGroup? 1 rest with
          | none => false
          | some rest => assignedAfterSuffixes passes rest
        else t.kind == .lexeme .equal

/-- Whether the tokens start with a variable that is assigned to. -/
def startsAssignment (s : TokenStream) : Bool :=
  match afterBlanks s.rest with
  | [] => false
  | t :: rest =>
    if isAccessSign t.kind then
      (frontKind rest).isMemberName && assignedAfterSuffixes (s.remaining + 1) rest.tail
    else t.kind.isNameLike && assignedAfterSuffixes (s.remaining + 1) rest

end LosslessBasic.Lookahead
