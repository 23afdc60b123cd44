import LosslessBasic.Grammar.Boundary
import LosslessBasic.Text.Ascii

/-!
# Designer blocks

The description of a form in front of its code: blocks between `Begin` and `End`, and groups of
properties between `BeginProperty` and `EndProperty`, nested in each other.
-/

namespace LosslessBasic.Grammar

/-- Whether a token is a name that is written as `word`, up to the case of letters. -/
def isNamed (t : Token) (word : String) : Bool :=
  t.kind == .lexeme .identifier && Ascii.equalIgnoringCase t.text (Bytes.ofString word)

/-- Whether a kind ends a line of a designer block. -/
def endsLine : Kind → Bool
  | .trivia .newline | .trivia .endOfLineComment | .trivia .remComment
  | .lexeme .endOfFile => true
  | _ => false

/-- Whether the closer of the block comes next: `End` by itself on its line, or `EndProperty`. -/
def atDesignerEnd (block : Block) : Production Bool :=
  look fun s =>
    if block = .designerProperty then isNamed (s.peekSignificant 0) "EndProperty"
    else (s.peekSignificant 0).kind == .keyword .end_ && endsLine (s.peekSignificant 1).kind

/-- The block that starts at the cursor. -/
def designerBlock? : Production (Option Block) := do
  let t ← current
  if t.kind == .keyword .begin then return some .designer
  if isNamed t "BeginProperty" then return some .designerProperty
  return none

/-- One line of a block with the value of a property. -/
def propertyAssignment : Production Unit := do
  rawStatement .propertyAssignment
  if ← atCurrent (.lexeme .colon) then shift

/-- An inner block, which is read by `inner`, or a line of this one when none starts. -/
def blockOrProperty (inner : Block → Production Unit) : Option Block → Production Unit
  | some block => inner block
  | none => propertyAssignment

/-- One step through a block, whose inner blocks are read by `inner`. -/
def designerPass (inner : Block → Production Unit) (block : Block) (_ : Unit) :
    Production (Pass Unit Unit) := do
  let t ← current
  if t.kind == .lexeme .endOfFile then
    report (.missingCloser block t) t
    return .done ()
  if t.kind.isTrivia then
    shift
    return .again ()
  if ← atDesignerEnd block then
    shiftNext
    finishStatement
    return .done ()
  blockOrProperty inner (← designerBlock?)
  return .again ()

/-- A block with its inner blocks, which nest at most `depth` deep; of a deeper one, only a token is
moved. -/
def designerUpTo : (depth : Nat) → Block → Production Unit
  | 0, _ => shift
  | depth + 1, block =>
    within .propertiesBlock do
      shift
      shiftRest
      finishStatement
      iterate (fun _ => ()) (designerPass (designerUpTo depth) block) ()

/-- A block of a form. -/
def designerStatement : Production Unit := do
  designerUpTo ((← look (·.remaining)) + 1) .designer

end LosslessBasic.Grammar
