import LosslessBasic.Diagnostic

/-!
# Logs of diagnostics

A log holds diagnostics in the order in which they were reported.
-/

namespace LosslessBasic

/-- The diagnostics that were reported, in order. -/
structure Log where
  /-- The diagnostics. -/
  diagnostics : List Diagnostic := []
  deriving DecidableEq, Repr

namespace Log

/-- The log with one more diagnostic. -/
def report (l : Log) (d : Diagnostic) : Log := { diagnostics := l.diagnostics ++ [d] }

/-- The number of diagnostics. -/
def size (l : Log) : Nat := l.diagnostics.length

/-- The number of diagnostics of a severity. -/
def countOf (l : Log) (s : Severity) : Nat := l.diagnostics.countP fun d => d.severity == s

/-- The number of errors. -/
def errorCount (l : Log) : Nat := l.countOf .error

/-- The number of warnings. -/
def warningCount (l : Log) : Nat := l.countOf .warning

/-- The lines of all diagnostics. -/
def text (registry : Registry) (l : Log) : Bytes :=
  l.diagnostics.flatMap (Diagnostic.line registry)

end Log

end LosslessBasic
