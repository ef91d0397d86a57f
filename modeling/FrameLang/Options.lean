import FrameLang.Json.Fields
import FrameLang.Json.Reader

/-!
# Options of an analysis

Options are read from a JSON text: an object in which every option may be left out, or an
array of the options in order that may stop early.
-/

namespace FrameLang

/-- The settings of one analysis. -/
structure Options where
  /-- Whether the unit is the top-level scope of a file. -/
  topLevel : Bool
  /-- The number of branches of one scope above which a warning is given. -/
  dispatchPathLimit : Nat
  deriving DecidableEq, Repr

namespace Options

/-- The settings that hold where nothing else is said. -/
def default : Options := ⟨true, 200⟩

instance : Inhabited Options := ⟨default⟩

open Json

/-- Options given as a JSON value. -/
def ofJson? : Json → Option Options
  | .object members => do
      guard (namesAreText members)
      let topLevel ← withDefault? members "top_level" default.topLevel asBool?
      let limit ←
        withDefault? members "dispatch_path_limit" default.dispatchPathLimit asCount?
      pure ⟨topLevel, limit⟩
  | .array [] => some default
  | .array [topLevel] => do
      pure { default with topLevel := ← topLevel.asBool? }
  | .array [topLevel, limit] => do
      pure ⟨← topLevel.asBool?, ← limit.asCount?⟩
  | _ => none

/-- Options given as a JSON text. -/
def read? (text : String) : Option Options := (Json.read? text).bind ofJson?

end Options

end FrameLang
