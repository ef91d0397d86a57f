import FrameLang.Search.Value
import FrameLang.Table

/-!
# Frames

A frame is a table of attributes.  An attribute is *pending* until its value is produced,
and *ready* ever after.  Whoever asks for a pending attribute is put on its waiting list
under a ticket; tickets count up for the whole frame.  Producing the value empties the
list: those who wait get the value, in the order in which they asked.

What waits is of no concern to a frame, so it is a parameter: `γ` is the type of whatever
is called back.
-/

namespace FrameLang

/-- Someone who waits for an attribute. -/
structure Waiter (γ : Type) where
  ticket : Nat
  callback : γ
  deriving DecidableEq, Repr

/-- The state of one attribute. -/
inductive Slot (γ : Type) where
  | ready (value : Value)
  /-- Not produced yet; those who wait are listed in the order in which they asked. -/
  | pending (waiting : List (Waiter γ))
  deriving DecidableEq, Repr

/-- A table of attributes. -/
structure Frame (γ : Type) where
  slots : Table String (Slot γ)
  /-- The next ticket. -/
  next : Nat
  deriving Repr

/-- What became of a request for an attribute. -/
inductive Availability where
  /-- The frame has no such attribute. -/
  | absent
  /-- The value is there. -/
  | delivered (value : Value)
  /-- The value is awaited under a ticket. -/
  | subscribed (ticket : Nat)
  deriving DecidableEq, Repr

/-- Why a value cannot be produced. -/
inductive FrameError where
  | unknownAttribute (name : String)
  | alreadyResolved (name : String)
  deriving DecidableEq, Repr

/-- The wording of a frame error. -/
def FrameError.message : FrameError → String
  | unknownAttribute name => s!"frame has no attribute “{name}”"
  | alreadyResolved name => s!"attribute “{name}” has already been produced"

/-- The value of an attribute, if it has been produced. -/
def Slot.value? {γ : Type} : Slot γ → Option Value
  | ready value => some value
  | pending _ => none

/-- Those who wait for an attribute. -/
def Slot.waiting {γ : Type} : Slot γ → List (Waiter γ)
  | ready _ => []
  | pending waiting => waiting

namespace Frame

variable {γ : Type}

/-- A frame without attributes. -/
def empty : Frame γ := ⟨∅, 0⟩

instance : EmptyCollection (Frame γ) := ⟨empty⟩
instance : Inhabited (Frame γ) := ⟨empty⟩

/-- The slot of an attribute that nobody has asked for. -/
def newSlot : Option Value → Slot γ
  | some value => .ready value
  | none => .pending []

/-- A frame with the given attributes; those without a value are pending. -/
def ofAttributes (attributes : List (String × Option Value)) : Frame γ :=
  ⟨.ofList (attributes.map fun pair => (pair.1, newSlot pair.2)), 0⟩

/-- A frame that lists values under the names `1`, `2` and so on. -/
def ofValues (values : List Value) : Frame γ :=
  .ofAttributes (values.zipIdx.map fun pair => (toString (pair.2 + 1), some pair.1))

/-! ## Looking -/

/-- The names of the attributes, in the order in which they were declared. -/
def names (frame : Frame γ) : List String := frame.slots.keys

/-- The number of attributes. -/
def size (frame : Frame γ) : Nat := frame.slots.size

/-- True when the frame has an attribute of the name. -/
def has (frame : Frame γ) (name : String) : Bool := frame.slots.contains name

/-- The value of an attribute, if it has been produced. -/
def get? (frame : Frame γ) (name : String) : Option Value :=
  (frame.slots.find? name).bind Slot.value?

/-- True when an attribute has been produced. -/
def isReady (frame : Frame γ) (name : String) : Bool := (frame.get? name).isSome

/-- Those who wait for an attribute. -/
def waiting (frame : Frame γ) (name : String) : List (Waiter γ) :=
  match frame.slots.find? name with
  | some slot => slot.waiting
  | none => []

/-! ## Changing -/

/-- Ask for an attribute; if it is pending, wait for it. -/
def request (frame : Frame γ) (name : String) (callback : γ) : Availability × Frame γ :=
  match frame.slots.find? name with
  | none => (.absent, frame)
  | some (.ready value) => (.delivered value, frame)
  | some (.pending waiting) =>
      (.subscribed frame.next,
        { slots := frame.slots.insert name (.pending (waiting ++ [⟨frame.next, callback⟩]))
          next := frame.next + 1 })

/-- Produce an attribute.  Those who waited for it no longer wait; they are to be called
back with the value, in this order. -/
def fulfil (frame : Frame γ) (name : String) (value : Value) :
    Except FrameError (List γ × Frame γ) :=
  match frame.slots.find? name with
  | none => .error (.unknownAttribute name)
  | some (.ready _) => .error (.alreadyResolved name)
  | some (.pending waiting) =>
      .ok (waiting.map Waiter.callback,
        { frame with slots := frame.slots.insert name (.ready value) })

/-- Stop waiting for an attribute.  True when somebody did wait under the ticket. -/
def cancel (frame : Frame γ) (name : String) (ticket : Nat) : Bool × Frame γ :=
  match frame.slots.find? name with
  | some (.pending waiting) =>
      let left := waiting.filter fun waiter => waiter.ticket ≠ ticket
      (left.length ≠ waiting.length,
        { frame with slots := frame.slots.insert name (.pending left) })
  | _ => (false, frame)

end Frame

end FrameLang
