/-!
# Regions of a source text

A `Span` is a region of the text of one unit, from a first position to a last one.
Positions count lines and columns from one; the region that is all zeros stands for
“nowhere in particular”.
-/

namespace FrameLang

/-- A region of the source text. -/
structure Span where
  line : UInt32
  column : UInt32
  endLine : UInt32
  endColumn : UInt32
  deriving DecidableEq, Repr

namespace Span

/-- The region that no text has. -/
def nowhere : Span := ⟨0, 0, 0, 0⟩

instance : Inhabited Span := ⟨nowhere⟩

/-- The empty region at one position. -/
def point (line column : UInt32) : Span := ⟨line, column, line, column⟩

/-- The order of positions: by line, and by column within a line. -/
def notAfter (first second : UInt32 × UInt32) : Bool :=
  first.1 < second.1 || (first.1 = second.1 && first.2 ≤ second.2)

/-- The least region that covers two: from the earlier first position to the later
last one. -/
def merge (first second : Span) : Span :=
  let start :=
    if notAfter (first.line, first.column) (second.line, second.column) then
      (first.line, first.column)
    else (second.line, second.column)
  let stop :=
    if notAfter (first.endLine, first.endColumn) (second.endLine, second.endColumn) then
      (second.endLine, second.endColumn)
    else (first.endLine, first.endColumn)
  ⟨start.1, start.2, stop.1, stop.2⟩

/-- A region as diagnostics show it, `line:column-line:column`. -/
def describe (span : Span) : String :=
  s!"{span.line}:{span.column}-{span.endLine}:{span.endColumn}"

end Span

end FrameLang
