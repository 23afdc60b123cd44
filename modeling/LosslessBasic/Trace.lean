import LosslessBasic.Failure

/-!
# Traces

What the reading of a program does, step by step, for whoever wants to follow it.
-/

namespace LosslessBasic

/-- What is begun at a token. -/
inductive Activity where
  /-- A statement is read. -/
  | statement
  /-- The rest of a broken statement is skipped. -/
  | recovery
  /-- The name of a procedure is read. -/
  | procedure
  /-- A block is closed. -/
  | close
  deriving DecidableEq, Repr

/-- How a trace calls an activity. -/
def Activity.name : Activity → String
  | statement => "stmt"
  | recovery => "recover"
  | procedure => "procedure"
  | close => "close"

/-- A step worth tracing. -/
inductive Event where
  /-- Something is begun at a token. -/
  | began (activity : Activity) (at_ : Token)
  /-- A failure is reported. -/
  | failed (failure : Failure)
  deriving DecidableEq, Repr

namespace Event

/-- A line and a column with a colon between them. -/
def placeText (loc : Location) : Bytes :=
  Bytes.decimal loc.line.toNat ++ [Bytes.byte ':'] ++ Bytes.decimal loc.column.toNat

/-- The line of an event. -/
def line : Event → Bytes
  | began activity t =>
    Bytes.ofString "[basil] " ++ Bytes.ofString activity.name ++ Bytes.ofString " " ++
      Bytes.ofString t.kind.name ++ Bytes.ofString " at " ++ placeText t.loc ++ [Bytes.lineFeed]
  | failed f =>
    Bytes.ofString "[basil] failure " ++ Bytes.ofString f.code ++ Bytes.ofString " at " ++
      placeText f.loc ++ Bytes.ofString ": " ++ f.message ++ [Bytes.lineFeed]

end Event

end LosslessBasic
