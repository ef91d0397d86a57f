import FrameLang.Diagnostic

/-!
# Reports

A `Report` is the outcome of checking one unit: the diagnostics in the order in which
they were found.  Only the first `Report.capacity` errors are kept; all of them are
counted.  Warnings are all kept.

A `Reporter` fills a report during a check.  The same demand can reach the same place
more than once, so a diagnostic that repeats the code, region and message of an earlier
one is dropped, and not counted either.
-/

namespace FrameLang

/-- Diagnostics in order of discovery, with their number. -/
structure Report where
  errors : List Diagnostic
  warnings : List Diagnostic
  totalErrors : Nat
  totalWarnings : Nat
  deriving DecidableEq, Repr

namespace Report

/-- The number of errors that a report keeps. -/
def capacity : Nat := 20

/-- The report of a check that found nothing. -/
def empty : Report := ⟨[], [], 0, 0⟩

instance : EmptyCollection Report := ⟨empty⟩
instance : Inhabited Report := ⟨empty⟩

/-- True when an error was found, whether it was kept or not. -/
def hasErrors (report : Report) : Bool := 0 < report.totalErrors

/-- Count an error, and keep it while there is room. -/
def addError (report : Report) (error : Diagnostic) : Report :=
  { report with
    errors :=
      if report.errors.length < capacity then report.errors ++ [error] else report.errors
    totalErrors := report.totalErrors + 1 }

/-- Count and keep a warning. -/
def addWarning (report : Report) (warning : Diagnostic) : Report :=
  { report with
    warnings := report.warnings ++ [warning]
    totalWarnings := report.totalWarnings + 1 }

/-- The errors kept that carry a given code. -/
def withCode (report : Report) (code : Code) : List Diagnostic :=
  report.errors.filter fun error => error.code = code

end Report

/-- What makes two diagnostics of one file the same. -/
structure Finding where
  code : Code
  span : Span
  message : String
  deriving DecidableEq, Repr

/-- The finding that a diagnostic is about. -/
def Diagnostic.finding (diagnostic : Diagnostic) : Finding :=
  ⟨diagnostic.code, diagnostic.span, diagnostic.message⟩

/-- A report being filled for one file. -/
structure Reporter where
  file : String
  report : Report
  /-- Every finding reported so far. -/
  seen : List Finding
  deriving Repr

namespace Reporter

/-- A reporter that has nothing to report yet. -/
def new (file : String) : Reporter := ⟨file, ∅, []⟩

/-- True while no error has been reported. -/
def success (reporter : Reporter) : Bool := !reporter.report.hasErrors

/-- Report an error, unless it repeats an earlier one. -/
def push (reporter : Reporter) (error : Diagnostic) : Reporter :=
  if error.finding ∈ reporter.seen then reporter
  else
    { reporter with
      report := reporter.report.addError error
      seen := error.finding :: reporter.seen }

/-- Report a broken rule. -/
def error (reporter : Reporter) (code : Code) (message : String) (span : Span) : Reporter :=
  reporter.push (.error reporter.file code message span)

/-- The wording of a conflict between what a name can be and what is demanded of it. -/
def conflictMessage (name : String) (known demanded : Kinds) : String :=
  s!"Lookup for “{name}” can only be {known.describe}, but {demanded.describe} is required."

/-- A demand on a name has nothing in common with what the name can be. -/
def nameConflict (reporter : Reporter) (span : Span) (name : String)
    (known demanded : Kinds) : Reporter :=
  reporter.push <|
    (Diagnostic.error reporter.file .conflictingName
      (conflictMessage name known demanded) span).withConflict known demanded

/-- An inherited name is restricted to kinds that its definition cannot have. -/
def maskConflict (reporter : Reporter) (span : Span) (name : String)
    (known mask : Kinds) : Reporter :=
  reporter.push <|
    ((Diagnostic.error reporter.file .conflictingName
      (conflictMessage name known mask) span).withConflict known mask).withSuggestion
        s!"“{name}” is defined in an enclosing scope as {known.describe}."

/-- A demand on an expression has nothing in common with what it can produce. -/
def expressionConflict (reporter : Reporter) (span : Span)
    (known demanded : Kinds) : Reporter :=
  reporter.push <|
    (Diagnostic.error reporter.file .conflictingExpression
      (s!"Expression can only be {known.describe}, but {demanded.describe} is required.")
      span).withConflict known demanded

/-- A hidden name is looked up. -/
def forbiddenName (reporter : Reporter) (span : Span) (name : String) : Reporter :=
  reporter.error .forbiddenName s!"Lookup for “{name}” is forbidden." span

/-- A lookup names nothing. -/
def emptyLookup (reporter : Reporter) (span : Span) : Reporter :=
  reporter.error .emptyLookup "Lookup must name at least one attribute." span

/-- A scope defines a name twice. -/
def duplicateAttribute (reporter : Reporter) (span : Span) (name : String) : Reporter :=
  reporter.error .duplicateAttribute s!"Duplicate attribute “{name}”." span

end Reporter

end FrameLang
