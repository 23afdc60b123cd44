import LosslessBasic.Kind

/-!
# Blocks and closers

The constructs that enclose lines of their own and end with a closer. A closer ends a whole block
or, as a *segment*, one body of a block that goes on with the next one.
-/

namespace LosslessBasic

/-- A construct that encloses lines of its own. -/
inductive Block where
  | if_ | select | for_ | do_ | while_ | with_ | sub | function | property
  | type | enum | designer | designerProperty
  deriving DecidableEq, Repr

namespace Block

/-- How the closer of a block is written. -/
def closer : Block → String
  | if_ => "End If"
  | select => "End Select"
  | for_ => "Next"
  | do_ => "Loop"
  | while_ => "Wend"
  | with_ => "End With"
  | sub => "End Sub"
  | function => "End Function"
  | property => "End Property"
  | type => "End Type"
  | enum => "End Enum"
  | designer => "End"
  | designerProperty => "EndProperty"

/-- Whether the block is the body of a procedure. -/
def isProcedure : Block → Bool
  | sub | function | property => true
  | _ => false

end Block

/-- The words at the start of a statement that end a block or one of its bodies. -/
structure Closer where
  /-- The block that is ended. -/
  block : Block
  /-- Whether only a body ends, and the block goes on. -/
  isSegment : Bool := false
  deriving DecidableEq, Repr

namespace Closer

/-- The closer that a statement opens with, judged by its first two significant kinds. -/
def ofKinds? (first second : Kind) : Option Closer :=
  match first with
  | .keyword .end_ =>
    match second with
    | .keyword .if_ => some { block := .if_ }
    | .keyword .select => some { block := .select }
    | .keyword .with_ => some { block := .with_ }
    | .keyword .sub => some { block := .sub }
    | .keyword .function => some { block := .function }
    | .keyword .property => some { block := .property }
    | _ => none
  | .keyword .next => some { block := .for_ }
  | .keyword .loop => some { block := .do_ }
  | .keyword .wend => some { block := .while_ }
  | .keyword .else_ => some { block := .if_, isSegment := true }
  | .keyword .elseIf => some { block := .if_, isSegment := true }
  | .keyword .case => some { block := .select, isSegment := true }
  | _ => none

/-- What a closer that closes nothing lacks. -/
def opener (c : Closer) : String :=
  if c.isSegment then
    match c.block with
    | .select => "Select Case"
    | _ => "If"
  else "block"

end Closer

end LosslessBasic
