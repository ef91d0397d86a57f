import FrameLang.Json

/-!
# Reading records out of JSON values

The readers of records differ in what they ask for, but they agree on the rules of this
module: a field of a record may be given once only, integers are written plainly and
lie in a range, and fields that a record does not have may be given and mean nothing.
-/

namespace FrameLang.Json

/-- The text of a string. -/
def asText? : Json → Option String
  | .string text => text
  | _ => none

/-- A truth value. -/
def asBool? : Json → Option Bool
  | .bool value => some value
  | _ => none

/-- A natural number below a bound. -/
def asNatBelow? (bound : Nat) : Json → Option Nat
  | .number numeral => do
      let value ← numeral.toNat?
      if value < bound then some value else none
  | _ => none

/-- A number of 16 bits. -/
def asUInt16? (value : Json) : Option UInt16 :=
  (value.asNatBelow? UInt16.size).map UInt16.ofNat

/-- A number of 32 bits. -/
def asUInt32? (value : Json) : Option UInt32 :=
  (value.asNatBelow? UInt32.size).map UInt32.ofNat

/-- A natural number of at most 64 bits. -/
def asCount? (value : Json) : Option Nat := value.asNatBelow? UInt64.size

/-- An array, each item read in the same way. -/
def asList? {α : Type} (item : Json → Option α) : Json → Option (List α)
  | .array items => items.mapM item
  | _ => none

/-- An optional value, which is absent when it is null. -/
def asOption? {α : Type} (item : Json → Option α) : Json → Option (Option α)
  | .null => some none
  | value => (item value).map some

/-- Every value given under a name. -/
def given (members : List (Option String × Json)) (name : String) : List Json :=
  (members.filter fun member => member.1 = some name).map Prod.snd

/-- A field that has to be given. -/
def required? {α : Type} (members : List (Option String × Json)) (name : String)
    (item : Json → Option α) : Option α :=
  match given members name with
  | [value] => item value
  | _ => none

/-- A field that has a value of its own when it is not given. -/
def withDefault? {α : Type} (members : List (Option String × Json)) (name : String)
    (default : α) (item : Json → Option α) : Option α :=
  match given members name with
  | [] => some default
  | [value] => item value
  | _ => none

/-- True when the names of all members are text. -/
def namesAreText (members : List (Option String × Json)) : Bool :=
  members.all fun member => member.1.isSome

end FrameLang.Json
