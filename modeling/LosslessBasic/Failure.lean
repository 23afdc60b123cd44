import LosslessBasic.Problem

/-!
# Failures

A failure is a problem at a place of the source. Failures never stop the reading of a program.
-/

namespace LosslessBasic

/-- A problem with the bytes and the location it is reported at. -/
structure Failure where
  /-- What is wrong. -/
  problem : Problem
  /-- The bytes it is reported for. -/
  span : Span
  /-- The location of their first one. -/
  loc : Location
  deriving DecidableEq, Repr

namespace Failure

/-- A problem reported at a token. -/
def atToken (problem : Problem) (t : Token) : Failure :=
  { problem := problem, span := t.span, loc := t.loc }

/-- The code of a failure as it is written. -/
def code (f : Failure) : String := f.problem.code.text

/-- The message of a failure. -/
def message (f : Failure) : Bytes := f.problem.message

end Failure

end LosslessBasic
