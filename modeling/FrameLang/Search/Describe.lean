import FrameLang.Kinds.Flags
import FrameLang.Search.World
import FrameLang.Text.Decimal
import FrameLang.Text.Quoted

/-!
# Values and searches as text

Texts for those who look into a running program.  They show the content of scalars, and
only the extent of frames and binary data.
-/

namespace FrameLang

/-- The word for a mode. -/
def Mode.word : Mode → String
  | contextual => "Contextual"
  | existential => "Existential"
  | coalescing => "Coalescing"
  | all => "All"

/-- The word for a truth value. -/
def truthWord (value : Bool) : String := if value then "true" else "false"

/-- A constructor with its arguments. -/
def applied (name : String) (arguments : List String) : String :=
  name ++ "(" ++ ", ".intercalate arguments ++ ")"

/-- A record with its fields. -/
def recordText (name : String) (fields : List (String × String)) : String :=
  name ++ " \x7b " ++ ", ".intercalate (fields.map fun field => field.1 ++ ": " ++ field.2) ++
    " \x7d"

/-- A failure as text. -/
def SearchError.describe : SearchError → String
  | nameNotFound name frames =>
      recordText "NameNotFound" [("name", Text.quoted name), ("frames", toString frames)]
  | notAFrame name component found =>
      recordText "NotAFrame"
        [("name", Text.quoted name), ("component", Text.quoted component),
          ("found", applied "Type" [Kinds.toFlags {found}])]
  | emptyPath => "EmptyNamePath"
  | invalidName name flaw =>
      recordText "InvalidName" [("name", Text.quoted name), ("reason", Text.quoted flaw.reason)]

namespace World

variable {κ : Type}

/-- A value as text. -/
def describeValue (world : World κ) : Value → String
  | .bool value => applied "Bool" [truthWord value]
  | .float bits => applied "Float" [Text.decimalText bits]
  | .frame id => applied "Frame" [toString (world.frame id).size ++ " attributes"]
  | .int value => applied "Int" [toString value.toInt]
  | .str text => applied "Str" [Text.quoted text]
  | .template id => applied "Template" [Text.quotedList (world.template id)]
  | .unit => "Unit"
  | .bin bytes => applied "Bin" [toString bytes.length ++ " bytes"]

/-- A result, if there is one yet, as text. -/
def describeResult (world : World κ) : Option Result → String
  | none => "None"
  | some (.ok value) => applied "Some" [applied "Ok" [world.describeValue value]]
  | some (.error error) => applied "Some" [applied "Err" [error.describe]]

/-- A search as text. -/
def describeSearch (world : World κ) (id : SearchId) : String :=
  let search := world.search id
  recordText "Lookup"
    [("name", Text.quoted search.path), ("mode", search.mode.word),
      ("result", world.describeResult search.result)]

/-- A frame as text. -/
def describeFrame (world : World κ) (id : FrameId) : String :=
  recordText "Frame" [("attributes", Text.quotedList (world.frame id).names)]

end World

end FrameLang
