import FrameLang.Json.Fields
import FrameLang.Json.Reader
import FrameLang.Kinds.Flags
import FrameLang.Report

/-!
# Diagnostics and reports as JSON

A diagnostic is written as one flat object: the region's four numbers stand among the
other fields, and a conflict or suggestion that is absent is left out.  A report is an
object with its two lists and two counts.

Reading accepts the same records and a little more.  Fields may come in any order, fields
that a record does not have are passed over, a report or a conflict may be given as an
array of its fields in order, and a word may be given as an object with the word as its
only name and null as its value.

Because the region of a diagnostic is spread over its object, a reader can tell which
fields are unknown only after it has kept them all: an unknown field of a diagnostic has
to be a sound value.  Unknown fields of other records are passed over unread.
-/

namespace FrameLang

/-! ## Writing -/

namespace Span

/-- The fields of a region, in the order in which they are written. -/
def toMembers (span : Span) : List (String × Json) :=
  [("line", .nat span.line.toNat), ("column", .nat span.column.toNat),
    ("end_line", .nat span.endLine.toNat), ("end_column", .nat span.endColumn.toNat)]

/-- A region as a record. -/
def toJson (span : Span) : Json := .record span.toMembers

end Span

/-- A set of kinds as its flags. -/
def Kinds.toJson (kinds : Kinds) : Json := .text kinds.toFlags

/-- A conflict as a record. -/
def Conflict.toJson (conflict : Conflict) : Json :=
  .record [("known", conflict.known.toJson), ("demanded", conflict.demanded.toJson)]

/-- A diagnostic as a record; what is absent is left out. -/
def Diagnostic.toJson (diagnostic : Diagnostic) : Json :=
  .record <|
    [("file", .text diagnostic.file), ("code", .nat diagnostic.code.number.toNat),
      ("severity", .text diagnostic.severity.word),
      ("category", .text diagnostic.category.word),
      ("message", .text diagnostic.message)] ++ diagnostic.span.toMembers ++
      (diagnostic.conflict.map fun conflict => ("conflict", conflict.toJson)).toList ++
      (diagnostic.suggestion.map fun suggestion => ("suggestion", Json.text suggestion)).toList

/-- A report as a record. -/
def Report.toJson (report : Report) : Json :=
  .record
    [("errors", .array (report.errors.map Diagnostic.toJson)),
      ("warnings", .array (report.warnings.map Diagnostic.toJson)),
      ("total_errors", .nat report.totalErrors), ("total_warnings", .nat report.totalWarnings)]

/-! ## Reading -/

open Json

/-- A set of kinds, given as a text of flags. -/
def Kinds.ofJson? (value : Json) : Option Kinds := value.asText?.bind Kinds.ofFlags?

/-- A word out of a list of words: the word itself, or an object that gives it null. -/
def asWord? {α : Type} (words : List (String × α)) : Json → Option α
  | .string text => text.bind fun text => words.lookup text
  | .object [(name, .null)] => name.bind fun name => words.lookup name
  | _ => none

/-- A severity, given by its word. -/
def Severity.ofJson? : Json → Option Severity :=
  asWord? ([Severity.error, .warning].map fun severity => (severity.word, severity))

/-- A category, given by its word. -/
def Category.ofJson? : Json → Option Category :=
  asWord? ([Category.type, .narrowing, .dispatch, .scope].map fun category =>
    (category.word, category))

/-- A conflict, given as a record or as its two sets in order. -/
def Conflict.ofJson? : Json → Option Conflict
  | .object members => do
      guard (namesAreText members)
      let known ← required? members "known" Kinds.ofJson?
      let demanded ← required? members "demanded" Kinds.ofJson?
      pure ⟨known, demanded⟩
  | .array [known, demanded] => do
      let known ← Kinds.ofJson? known
      let demanded ← Kinds.ofJson? demanded
      pure ⟨known, demanded⟩
  | _ => none

/-- The region that is spread over the fields of a diagnostic. -/
def Span.ofMembers? (members : List (Option String × Json)) : Option Span := do
  let line ← required? members "line" asUInt32?
  let column ← required? members "column" asUInt32?
  let endLine ← required? members "end_line" asUInt32?
  let endColumn ← required? members "end_column" asUInt32?
  pure ⟨line, column, endLine, endColumn⟩

/-- The fields of a diagnostic whose place in its record is fixed. -/
def Diagnostic.ownFields : List String :=
  ["file", "code", "severity", "category", "message", "conflict", "suggestion"]

/-- True when a field can be kept inside `outer` arrays and objects until it is known
whether it belongs to a diagnostic. -/
def Diagnostic.canKeep (outer : Nat) (member : Option String × Json) : Bool :=
  match member.1 with
  | none => false
  | some name => name ∈ ownFields || member.2.sound outer

/-- A diagnostic, given as a record inside `outer` arrays and objects, its own included. -/
def Diagnostic.ofJson? (outer : Nat) : Json → Option Diagnostic
  | .object members => do
      guard (members.all (canKeep outer))
      let file ← required? members "file" asText?
      let code ← required? members "code" asUInt16?
      let severity ← required? members "severity" Severity.ofJson?
      let category ← required? members "category" Category.ofJson?
      let message ← required? members "message" asText?
      let span ← Span.ofMembers? members
      let conflict ← withDefault? members "conflict" none (asOption? Conflict.ofJson?)
      let suggestion ← withDefault? members "suggestion" none (asOption? asText?)
      pure ⟨file, ⟨code⟩, severity, category, message, span, conflict, suggestion⟩
  | _ => none

/-- A list of diagnostics in a report: each stands inside three arrays and objects. -/
def Diagnostic.listOfJson? : Json → Option (List Diagnostic) :=
  asList? (Diagnostic.ofJson? 3)

/-- A report, given as a record or as its four fields in order. -/
def Report.ofJson? : Json → Option Report
  | .object members => do
      guard (namesAreText members)
      let errors ← required? members "errors" Diagnostic.listOfJson?
      let warnings ← required? members "warnings" Diagnostic.listOfJson?
      let totalErrors ← required? members "total_errors" asCount?
      let totalWarnings ← required? members "total_warnings" asCount?
      pure ⟨errors, warnings, totalErrors, totalWarnings⟩
  | .array [errors, warnings, totalErrors, totalWarnings] => do
      let errors ← Diagnostic.listOfJson? errors
      let warnings ← Diagnostic.listOfJson? warnings
      let totalErrors ← totalErrors.asCount?
      let totalWarnings ← totalWarnings.asCount?
      pure ⟨errors, warnings, totalErrors, totalWarnings⟩
  | _ => none

/-- The diagnostic that a text holds. -/
def Diagnostic.read? (text : String) : Option Diagnostic :=
  (Json.read? text).bind (Diagnostic.ofJson? 1)

/-- The report that a text holds. -/
def Report.read? (text : String) : Option Report :=
  (Json.read? text).bind Report.ofJson?

end FrameLang
