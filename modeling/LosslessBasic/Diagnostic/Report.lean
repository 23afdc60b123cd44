import LosslessBasic.Diagnostic.Excerpt
import LosslessBasic.Diagnostic.Log

/-!
# Reports

A report shows diagnostics together with the source lines they are about. What is emitted into a
report is also written to its log, where others may report as well: the log counts, the report
shows.
-/

namespace LosslessBasic

/-- A diagnostic about a number of bytes. -/
structure Marked where
  /-- The diagnostic. -/
  diagnostic : Diagnostic
  /-- The number of bytes it is about. -/
  length : UInt32
  deriving DecidableEq, Repr

/-- Diagnostics to be shown with the sources they are about. -/
structure Report where
  /-- All that was reported, here or elsewhere. -/
  log : Log := {}
  /-- The diagnostics to be shown, in order. -/
  entries : List Marked := []
  /-- The sources by file number; of two for one number the first holds. -/
  sources : List (UInt32 × Bytes) := []
  deriving DecidableEq, Repr

namespace Marked

/-- A failure with the bytes it is reported for. -/
def ofFailure (f : Failure) : Marked :=
  { diagnostic := .ofFailure f, length := f.span.length }

/-- The header line of a diagnostic that is shown with its source; it always has brackets. -/
def header (registry : Registry) (m : Marked) : Bytes :=
  m.diagnostic.headerWith (Diagnostic.bracketed m.diagnostic.code) registry

end Marked

namespace Report

/-- The report that knows the source of a file. -/
def addSource (r : Report) (file : UInt32) (source : Bytes) : Report :=
  { r with sources := (file, source) :: r.sources }

/-- The source of a file; empty when it is not known. -/
def source (r : Report) (file : UInt32) : Bytes := (r.sources.lookup file).getD []

/-- The line of a known source that a location lies on. -/
def line (r : Report) (loc : Location) : Bytes := Excerpt.line (r.source loc.file) loc.line

/-- The report with one more diagnostic to show. -/
def emit (r : Report) (m : Marked) : Report :=
  { r with log := r.log.report m.diagnostic, entries := r.entries ++ [m] }

/-- The report with the failures of a reading, in order. -/
def emitFailures (r : Report) (failures : List Failure) : Report :=
  failures.foldl (fun r f => r.emit (.ofFailure f)) r

/-- The text of one entry: its header and the line it is about. -/
def entryText (r : Report) (registry : Registry) (m : Marked) : Bytes :=
  let loc := m.diagnostic.loc
  m.header registry ++ Excerpt.text (r.line loc) loc.column m.length

/-- The text of all entries. -/
def text (registry : Registry) (r : Report) : Bytes := r.entries.flatMap (r.entryText registry)

end Report

end LosslessBasic
