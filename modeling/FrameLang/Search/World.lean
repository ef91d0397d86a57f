import FrameLang.Search.Basic

/-!
# Worlds

A `World` holds frames and searches.  Frames are shared: a search may wait for several
frames, one frame may be met on several ways, and producing one attribute may bring many
searches forward.

What waits for an attribute is data: either an attempt of a search, or an observer, of
which a world knows only a token.  Listeners of searches are tokens as well.  What an
observer does when it is told something is for the one who runs the world to say, and it
may do anything that can be done to a world.

## Strategy

The steps of a search never run anything from outside half-way.  They change the world and
give back the tokens of those who are to be told the result, so they are plain functions
of the world.  Only the operations at the end (`start`, `fulfil`, `notify`, `subscribe`)
call observers, one after the other, between such steps.
-/

namespace FrameLang

/-- The position of a search in its world. -/
structure SearchId where
  index : Nat
  deriving DecidableEq, Repr, Inhabited

/-- What waits for an attribute. -/
inductive Callback (κ : Type) where
  /-- The attempt of a search at a frame of its context, at a component of its path. -/
  | attempt (search : SearchId) (index component : Nat)
  | observer (token : κ)
  deriving DecidableEq, Repr

/-- Frames, templates and searches. -/
structure World (κ : Type) where
  frames : Array (Frame (Callback κ))
  /-- For each template, the names of the attributes it will define. -/
  templates : Array (List String)
  searches : Array (Search κ)

/-- What an observer is told. -/
inductive Notice where
  | value (value : Value)
  | result (result : Result)

namespace World

variable {κ : Type}

/-- The world without frames. -/
def empty : World κ := ⟨#[], #[], #[]⟩

instance : EmptyCollection (World κ) := ⟨empty⟩
instance : Inhabited (World κ) := ⟨empty⟩

/-- A frame of the world. -/
def frame (world : World κ) (id : FrameId) : Frame (Callback κ) :=
  world.frames[id.index]?.getD default

/-- A search of the world. -/
def search (world : World κ) (id : SearchId) : Search κ :=
  world.searches[id.index]?.getD default

/-- The names of the attributes of a template. -/
def template (world : World κ) (id : TemplateId) : List String :=
  world.templates[id.index]?.getD []

/-- Put a frame in the place of another. -/
def setFrame (world : World κ) (id : FrameId) (frame : Frame (Callback κ)) : World κ :=
  { world with frames := world.frames.modify id.index fun _ => frame }

/-- Change one search. -/
def modifySearch (world : World κ) (id : SearchId) (change : Search κ → Search κ) : World κ :=
  { world with searches := world.searches.modify id.index change }

/-- Add a frame. -/
def addFrame (world : World κ) (frame : Frame (Callback κ)) : FrameId × World κ :=
  (⟨world.frames.size⟩, { world with frames := world.frames.push frame })

/-- Add a template. -/
def addTemplate (world : World κ) (names : List String) : TemplateId × World κ :=
  (⟨world.templates.size⟩, { world with templates := world.templates.push names })

/-- Add a search that has not started. -/
def addSearch (world : World κ) (search : Search κ) : SearchId × World κ :=
  (⟨world.searches.size⟩, { world with searches := world.searches.push search })

/-- Ask a frame of the world for an attribute. -/
def request (world : World κ) (id : FrameId) (name : String) (callback : Callback κ) :
    Availability × World κ :=
  let (availability, frame) := (world.frame id).request name callback
  (availability, world.setFrame id frame)

/-- Stop waiting for an attribute. -/
def cancel (world : World κ) (id : FrameId) (name : String) (ticket : Nat) :
    Bool × World κ :=
  let (found, frame) := (world.frame id).cancel name ticket
  (found, world.setFrame id frame)

/-! ## The steps of a search

Each step gives back who is to be told the result of the search. -/

/-- Release everything that a search waits for. -/
def release (world : World κ) (subscriptions : List (Option Subscription)) : World κ :=
  subscriptions.foldl (fun world subscription =>
    match subscription with
    | none => world
    | some ⟨frame, name, ticket⟩ => (world.cancel frame name ticket).2) world

/-- End a search with a result. -/
def commit (id : SearchId) (result : Result) (world : World κ) : List κ × World κ :=
  let search := world.search id
  let world := world.modifySearch id fun search =>
    { search with
      result := some result
      subscriptions := search.subscriptions.map fun _ => none
      listeners := [] }
  (search.listeners, world.release search.subscriptions)

/-- End a search if its result is certain. -/
def settle (id : SearchId) (world : World κ) : List κ × World κ :=
  let search := world.search id
  if search.isCommitted then ([], world)
  else
    match search.verdict? with
    | none => ([], world)
    | some (.value value) => commit id (.ok value) world
    | some (.failure error) => commit id (.error error) world
    | some (.list values) =>
        let (frame, world) := world.addFrame (.ofValues values)
        commit id (.ok (.frame frame)) world

/-- Note what has become of the attempt at a frame of the context. -/
def record (id : SearchId) (index : Nat) (outcome : Outcome) (world : World κ) :
    List κ × World κ :=
  settle id <| world.modifySearch id fun search =>
    { search with outcomes := search.outcomes.set index outcome }

/-- Note what the attempt at a frame of the context waits for. -/
def subscribeTo (id : SearchId) (index : Nat) (subscription : Option Subscription)
    (world : World κ) : World κ :=
  world.modifySearch id fun search =>
    { search with subscriptions := search.subscriptions.set index subscription }

/-- Ask a frame for a component of the path, and go on with the value if it is there. -/
def ask (id : SearchId) (index component : Nat) (name : String) (frame : FrameId)
    (next : Value → World κ → List κ × World κ) (world : World κ) : List κ × World κ :=
  let world := world.modifySearch id fun search =>
    { search with attempts := search.attempts ++ [⟨index, component, frame⟩] }
  match world.request frame name (.attempt id index component) with
  | (.absent, world) => record id index .notFound world
  | (.delivered value, world) => next value world
  | (.subscribed ticket, world) =>
      ([], subscribeTo id index (some ⟨frame, name, ticket⟩) world)

/-- Take the value of a component, and drill down the components after it.  A search that
has ended takes nothing. -/
def receive (id : SearchId) (index : Nat) :
    (component : Nat) → (rest : List String) → Value → World κ → List κ × World κ
  | component, rest, value, world =>
      if (world.search id).isCommitted then ([], world)
      else
        let world := subscribeTo id index none world
        match rest with
        | [] => record id index (.found value) world
        | name :: rest =>
            match value with
            | .frame frame =>
                ask id index (component + 1) name frame
                  (fun value world => receive id index (component + 1) rest value world) world
            | value => record id index (.notAFrame component value.kind) world

/-- Attempt the frames of the context from a given one on, as long as the search goes on. -/
def attemptFrom (id : SearchId) (name : String) (rest : List String) :
    (index : Nat) → List FrameId → World κ → List κ × World κ
  | _, [], world => settle id world
  | index, frame :: frames, world =>
      if (world.search id).isCommitted then ([], world)
      else
        let (told, world) := ask id index 0 name frame (receive id index 0 rest) world
        let (more, world) := attemptFrom id name rest (index + 1) frames world
        (told ++ more, world)

/-- Begin a search.  Nothing happens when it has begun before. -/
def begin (id : SearchId) (world : World κ) : List κ × World κ :=
  let search := world.search id
  if search.started then ([], world)
  else
    let world := world.modifySearch id fun search => { search with started := true }
    match Search.pathError? search.names, search.names with
    | some error, _ => commit id (.error error) world
    | none, name :: rest => attemptFrom id name rest 0 search.context world
    | none, [] => ([], world)

/-- Deliver the value of a component to the attempt of a search that waited for it. -/
def deliver (id : SearchId) (index component : Nat) (value : Value) (world : World κ) :
    List κ × World κ :=
  receive id index component ((world.search id).names.drop (component + 1)) value world

/-! ## Running a world -/

section Run

variable {m : Type → Type} [Monad m]

/-- What observers do when they are told something. -/
abbrev Observer (κ : Type) (m : Type → Type) := κ → Notice → StateT (World κ) m Unit

/-- Tell listeners the result of a search. -/
def tell (observe : Observer κ m) (id : SearchId) (listeners : List κ) :
    StateT (World κ) m Unit := do
  match ((← get).search id).result with
  | none => pure ()
  | some result => listeners.forM fun token => observe token (.result result)

/-- Take a step of a search and tell the result to whom it may concern. -/
def step (observe : Observer κ m) (id : SearchId)
    (change : World κ → List κ × World κ) : StateT (World κ) m Unit := do
  let listeners ← modifyGet change
  tell observe id listeners

/-- Start a search. -/
def start (observe : Observer κ m) (id : SearchId) : StateT (World κ) m Unit :=
  step observe id (begin id)

/-- Call back what waited for a value. -/
def call (observe : Observer κ m) (value : Value) : Callback κ → StateT (World κ) m Unit
  | .observer token => observe token (.value value)
  | .attempt id index component => step observe id (deliver id index component value)

/-- Produce an attribute and call back everything that waited for it; the result is the
number of callbacks. -/
def fulfil (observe : Observer κ m) (id : FrameId) (name : String) (value : Value) :
    StateT (World κ) m (Except FrameError Nat) := do
  match ((← get).frame id).fulfil name value with
  | .error error => pure (.error error)
  | .ok (callbacks, frame) => do
      modify fun world => world.setFrame id frame
      callbacks.forM (call observe value)
      pure (.ok callbacks.length)

/-- Let an observer know the result of a search, now or when it ends. -/
def notify (observe : Observer κ m) (id : SearchId) (token : κ) :
    StateT (World κ) m Unit := do
  match ((← get).search id).result with
  | some result => observe token (.result result)
  | none =>
      modify fun world => world.modifySearch id fun search =>
        { search with listeners := search.listeners ++ [token] }

/-- Let an observer know the value of an attribute, now or when it is produced. -/
def subscribe (observe : Observer κ m) (id : FrameId) (name : String) (token : κ) :
    StateT (World κ) m Availability := do
  let availability ← modifyGet fun world => world.request id name (.observer token)
  match availability with
  | .delivered value => observe token (.value value)
  | _ => pure ()
  pure availability

end Run

end World

end FrameLang
