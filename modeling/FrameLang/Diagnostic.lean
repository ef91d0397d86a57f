import FrameLang.Kinds
import FrameLang.Span

/-!
# Diagnostics

A `Diagnostic` says what is wrong with one region of one file.  Its numeric `Code` says
which rule was broken; codes are grouped by hundreds, and the group is the diagnostic's
`Category`.
-/

namespace FrameLang

/-- How serious a diagnostic is. -/
inductive Severity where
  | error
  | warning
  deriving DecidableEq, Repr

/-- The part of the language that a diagnostic is about. -/
inductive Category where
  | type
  | narrowing
  | dispatch
  | scope
  deriving DecidableEq, Repr

/-- The number of a rule. -/
structure Code where
  number : UInt16
  deriving DecidableEq, Repr

/-- The two sets of kinds that have nothing in common. -/
structure Conflict where
  /-- What was possible before the demand. -/
  known : Kinds
  /-- What the demand asked for. -/
  demanded : Kinds
  deriving DecidableEq, Repr

/-- Something wrong in one region of a file. -/
structure Diagnostic where
  file : String
  code : Code
  severity : Severity
  category : Category
  message : String
  span : Span
  conflict : Option Conflict
  suggestion : Option String
  deriving DecidableEq, Repr

/-! ## Wording -/

/-- A severity as a word. -/
def Severity.word : Severity → String
  | error => "error"
  | warning => "warning"

/-- A category as a word. -/
def Category.word : Category → String
  | type => "type"
  | narrowing => "narrowing"
  | dispatch => "dispatch"
  | scope => "scope"

namespace Code

/-- A name can never have a kind that is demanded of it. -/
def conflictingName : Code := ⟨200⟩

/-- An expression can never have a kind that is demanded of it. -/
def conflictingExpression : Code := ⟨201⟩

/-- A value that arrives in a scope has a kind that the scope excludes. -/
def narrowingViolation : Code := ⟨300⟩

/-- A scope multiplies the code that is generated for it beyond a limit. -/
def dispatchExplosion : Code := ⟨400⟩

/-- A hidden name is looked up. -/
def forbiddenName : Code := ⟨500⟩

/-- One scope defines a name twice. -/
def duplicateAttribute : Code := ⟨501⟩

/-- A lookup names nothing. -/
def emptyLookup : Code := ⟨502⟩

/-- The group of a code: the 300s, 400s and 500s have their own, all others are about
types. -/
def category (code : Code) : Category :=
  if 300 ≤ code.number ∧ code.number ≤ 399 then .narrowing
  else if 400 ≤ code.number ∧ code.number ≤ 499 then .dispatch
  else if 500 ≤ code.number ∧ code.number ≤ 599 then .scope
  else .type

/-- A code as diagnostics show it. -/
def describe (code : Code) : String := s!"E{code.number}"

end Code

namespace Diagnostic

/-- An error, in the category of its code. -/
def error (file : String) (code : Code) (message : String) (span : Span) : Diagnostic where
  file := file
  code := code
  severity := .error
  category := code.category
  message := message
  span := span
  conflict := none
  suggestion := none

/-- A warning, in the category of its code. -/
def warning (file : String) (code : Code) (message : String) (span : Span) : Diagnostic :=
  { error file code message span with severity := .warning }

/-- The diagnostic with the two sides of a conflict attached. -/
def withConflict (diagnostic : Diagnostic) (known demanded : Kinds) : Diagnostic :=
  { diagnostic with conflict := some ⟨known, demanded⟩ }

/-- The diagnostic with a suggestion attached. -/
def withSuggestion (diagnostic : Diagnostic) (suggestion : String) : Diagnostic :=
  { diagnostic with suggestion := some suggestion }

/-- One line that a person can read: file, region, code, category and message. -/
def describe (diagnostic : Diagnostic) : String :=
  s!"{diagnostic.file}:{diagnostic.span.describe}: {diagnostic.code.describe} " ++
    s!"[{diagnostic.category.word}] {diagnostic.message}"

end Diagnostic

end FrameLang
