import FrameLang.Kinds

/-!
# Values

A value is a scalar, or it refers to a frame or a template by identity.  Scalars are equal
when they have the same content; frames and templates are equal only to themselves.
-/

namespace FrameLang

/-- The identity of a frame. -/
structure FrameId where
  index : Nat
  deriving DecidableEq, Repr, Inhabited

/-- The identity of a template. -/
structure TemplateId where
  index : Nat
  deriving DecidableEq, Repr, Inhabited

/-- A value.  A floating-point number is kept as its 64 bits. -/
inductive Value where
  | bool (value : Bool)
  | float (bits : UInt64)
  | frame (id : FrameId)
  | int (value : Int64)
  | str (value : String)
  | template (id : TemplateId)
  | unit
  | bin (bytes : List UInt8)
  deriving DecidableEq, Repr, Inhabited

namespace Value

/-- The kind of a value. -/
def kind : Value → Kind
  | bool _ => .bool
  | float _ => .float
  | frame _ => .frame
  | int _ => .int
  | str _ => .str
  | template _ => .template
  | unit => .unit
  | bin _ => .bin

/-- The frame that a value refers to. -/
def frame? : Value → Option FrameId
  | frame id => some id
  | _ => none

/-- The bits of a floating-point number that are not its sign. -/
def magnitude (bits : UInt64) : UInt64 := bits &&& 0x7FFFFFFFFFFFFFFF

/-- True of the bits that stand for no number. -/
def isNaN (bits : UInt64) : Bool := 0x7FF0000000000000 < magnitude bits

/-- Equality of floating-point numbers: what is not a number is equal to nothing, and the
two zeros are equal. -/
def floatsEqual (first second : UInt64) : Bool :=
  !isNaN first && !isNaN second &&
    (first = second || (magnitude first = 0 && magnitude second = 0))

/-- Equality of values, as programs see it. -/
def equal : Value → Value → Bool
  | float first, float second => floatsEqual first second
  | first, second => first = second

end Value

end FrameLang
