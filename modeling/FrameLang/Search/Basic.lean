import FrameLang.Search.Frame
import FrameLang.Search.Symbol

/-!
# Searches

A `Search` looks a dotted path up in the frames of a context.  It attempts all frames at
once: each of them answers with the value at the end of the path, or does not have it, or
has something on the way that is not a frame, or leaves the attempt waiting.  Answers come
in any order, but the search commits to a result only when it is certain which result a
search frame by frame would end with.

The `Mode` of a search says what its result is.  `Search.verdict?` says when the result is
certain, and what it is.
-/

namespace FrameLang

/-- The frames that a search goes through, in order. -/
structure Context where
  frames : List FrameId
  deriving DecidableEq, Repr

namespace Context

/-- The context without frames. -/
def empty : Context := ⟨[]⟩

/-- The context that has one more frame in front. -/
def prepend (context : Context) (frame : FrameId) : Context := ⟨frame :: context.frames⟩

/-- The context that has one more frame at the end. -/
def append (context : Context) (frame : FrameId) : Context := ⟨context.frames ++ [frame]⟩

end Context

/-- What a search is after. -/
inductive Mode where
  /-- The first value. -/
  | contextual
  /-- Whether there is a value. -/
  | existential
  /-- The first value that is not null. -/
  | coalescing
  /-- All values, as a frame that lists them. -/
  | all
  deriving DecidableEq, Repr

/-- Why a search failed. -/
inductive SearchError where
  /-- None of the frames supplies the path. -/
  | nameNotFound (name : String) (frames : Nat)
  /-- Something on the way along the path is not a frame. -/
  | notAFrame (name component : String) (found : Kind)
  | emptyPath
  | invalidName (name : String) (flaw : Symbol.Flaw)
  deriving DecidableEq, Repr

/-- The wording of a failure. -/
def SearchError.message : SearchError → String
  | nameNotFound name frames => s!"no frame among {frames} defines “{name}”"
  | notAFrame name component found =>
      s!"lookup for “{name}” drilled into {found.name} at “{component}”"
  | emptyPath => "lookup with an empty name path"
  | invalidName name flaw => s!"invalid name “{name}”: {flaw.reason}"

/-- What a search ends with. -/
abbrev Result := Except SearchError Value

instance : DecidableEq Result
  | .ok first, .ok second => decidable_of_iff (first = second) (by simp)
  | .error first, .error second => decidable_of_iff (first = second) (by simp)
  | .ok _, .error _ => isFalse (by simp)
  | .error _, .ok _ => isFalse (by simp)

/-- What has become of the attempt at one frame of the context. -/
inductive Outcome where
  | pending
  | found (value : Value)
  | notFound
  /-- The value of the component at a position is not a frame, although more components
  follow. -/
  | notAFrame (component : Nat) (kind : Kind)
  deriving DecidableEq, Repr

/-- A request of a search: on behalf of which frame of the context which frame was asked
for which component. -/
structure Attempt where
  index : Nat
  component : Nat
  frame : FrameId
  deriving DecidableEq, Repr

/-- The attribute that a search waits for, and its ticket. -/
structure Subscription where
  frame : FrameId
  name : String
  ticket : Nat
  deriving DecidableEq, Repr

/-- The state of a search.  Listeners are of a type `κ` of tokens. -/
structure Search (κ : Type) where
  names : List String
  context : List FrameId
  mode : Mode
  started : Bool
  /-- All requests, in the order in which they were made. -/
  attempts : List Attempt
  /-- For each frame of the context, what has become of it. -/
  outcomes : List Outcome
  /-- For each frame of the context, what is waited for. -/
  subscriptions : List (Option Subscription)
  result : Option Result
  /-- Who is told the result. -/
  listeners : List κ

/-- A result that is certain. -/
inductive Verdict where
  | value (value : Value)
  /-- A new frame that lists values. -/
  | list (values : List Value)
  | failure (error : SearchError)
  deriving DecidableEq, Repr

namespace Search

variable {κ : Type}

/-- A search over the frames that a context has now. -/
def new (context : Context) (names : List String) (mode : Mode) : Search κ where
  names := names
  context := context.frames
  mode := mode
  started := false
  attempts := []
  outcomes := context.frames.map fun _ => .pending
  subscriptions := context.frames.map fun _ => none
  result := none
  listeners := []

instance : Inhabited (Search κ) := ⟨new .empty [] .contextual⟩

/-- The path that is looked up. -/
def path (search : Search κ) : String := ".".intercalate search.names

/-- True when the search has ended. -/
def isCommitted (search : Search κ) : Bool := search.result.isSome

/-- The failure at a component that is not a frame. -/
def drilled (names : List String) (component : Nat) (kind : Kind) : SearchError :=
  .notAFrame (".".intercalate names) (".".intercalate (names.take (component + 1))) kind

/-! ## Verdicts -/

/-- The verdict on outcomes when one value is looked for, given the first failure at
something that is not a frame. -/
def decideOne (mode : Mode) (names : List String) (frames : Nat) :
    Option (Nat × Kind) → List Outcome → Option Verdict
  | some (component, kind), [] => some (.failure (drilled names component kind))
  | none, [] =>
      if mode = .existential then some (.value (.bool false))
      else some (.failure (.nameNotFound (".".intercalate names) frames))
  | _, .pending :: _ => none
  | miss, .notFound :: rest => decideOne mode names frames miss rest
  | miss, .notAFrame component kind :: rest =>
      decideOne mode names frames (miss.or (some (component, kind))) rest
  | miss, .found value :: rest =>
      if mode = .coalescing && value = .unit then decideOne mode names frames miss rest
      else if mode = .existential then some (.value (.bool true))
      else some (.value value)

/-- The verdict on outcomes when all values are looked for, given those found already. -/
def decideAll (names : List String) (values : List Value) : List Outcome → Option Verdict
  | [] => some (.list values)
  | .pending :: _ => none
  | .notFound :: rest => decideAll names values rest
  | .notAFrame component kind :: _ => some (.failure (drilled names component kind))
  | .found value :: rest => decideAll names (values ++ [value]) rest

/-- The verdict on the outcomes so far, if it is certain. -/
def verdict? (search : Search κ) : Option Verdict :=
  match search.mode with
  | .all => decideAll search.names [] search.outcomes
  | mode => decideOne mode search.names search.context.length none search.outcomes

/-- What is wrong with the path, if it cannot be looked up. -/
def pathError? (names : List String) : Option SearchError :=
  if names.isEmpty then some .emptyPath
  else names.findSome? fun name => (Symbol.flaw? name).map (.invalidName name)

/-! ## What has been tried -/

/-- The frame that was asked for a component on behalf of a frame of the context. -/
def frameAt? (search : Search κ) (component index : Nat) : Option FrameId :=
  (search.attempts.find? fun attempt =>
    attempt.index = index && attempt.component = component).map Attempt.frame

/-- The frame that was asked last. -/
def lastFrame? (search : Search κ) : Option FrameId :=
  search.attempts.getLast?.map Attempt.frame

/-- The component that was asked for last. -/
def lastName? (search : Search κ) : Option String :=
  search.attempts.getLast?.bind fun attempt => search.names[attempt.component]?

end Search

end FrameLang
