import FrameLang.Branch.Entrance

/-!
# Walking the scopes of generated code

A generator walks through the scopes of a unit.  In every branch of a scope it runs a body,
which may enter further scopes.  The walk keeps count of the paths that the branches around
the current point multiply into, reports inherited values that a scope excludes, and warns
once for each scope in which there are too many paths.
-/

namespace FrameLang

/-- What a visit of a scope comes to. -/
structure Visited extends Entrance where
  /-- How often the body has been run. -/
  branches : Nat
  deriving Repr

/-- The state of a walk. -/
structure Walk where
  /-- The number of paths that lead to the current point. -/
  paths : Nat
  /-- The scopes about which a warning has been given. -/
  warned : List ScopeId
  report : Report
  deriving Repr

namespace Walk

/-- At the start there is one path. -/
def start : Walk := ⟨1, [], ∅⟩

/-- The count of paths does not go beyond 64 bits. -/
def pathCeiling : Nat := UInt64.size - 1

/-- The number of paths after a dispatch. -/
def multiply (paths : Nat) (dispatch : List Loaded) : Nat :=
  dispatch.foldl (fun paths loaded => min (paths * max loaded.possible.size 1) pathCeiling) paths

/-- The warning about a scope with too many paths. -/
def explosion (analysis : Analysis) (scope : ScopeId) (paths : Nat) : Diagnostic :=
  .warning analysis.file .dispatchExplosion
    (s!"There are {paths} type-derived flows in the generated code. " ++
      "This will be slow to compile.")
    (analysis.tree.scope scope).span

/-- The error about inherited values that a scope excludes. -/
def violation (analysis : Analysis) (scope : ScopeId) (violations : List Violation) :
    Diagnostic :=
  .error analysis.file .narrowingViolation (Violation.describeAll violations)
    (analysis.tree.scope scope).span

/-- The walk inside a scope: the paths are multiplied, and a warning is given if they are
too many and none has been given about the scope. -/
def enter (analysis : Analysis) (scope : ScopeId) (dispatch : List Loaded) (walk : Walk) :
    Walk :=
  let paths := multiply walk.paths dispatch
  if analysis.options.dispatchPathLimit < paths && !(scope ∈ walk.warned) then
    { walk with
      paths := paths
      warned := scope :: walk.warned
      report := walk.report.addWarning (explosion analysis scope paths) }
  else { walk with paths := paths }

/-- The walk after a scope that could not be entered. -/
def refuse (analysis : Analysis) (scope : ScopeId) (refusal : Refusal) (walk : Walk) : Walk :=
  match refusal with
  | .narrowing violations =>
      { walk with report := walk.report.addError (violation analysis scope violations) }
  | _ => walk

variable {m : Type → Type} [Monad m]

/-- Run a body in each branch of a dispatch, on top of a cache, and count the runs.  A run may change
the walk, and the next one starts from what it has left. -/
def runBranches (body : Cache → StateT Walk m Unit) (cache : Cache) :
    List Loaded → StateT Walk m Nat
  | [] => do
      body cache
      pure 1
  | loaded :: rest =>
      loaded.possible.toList.foldlM (fun count kind => do
        let more ← runBranches body (loaded.branch cache kind) rest
        pure (count + more)) 0

/-- Enter a scope and run a body in each of its branches, given what the path has obtained.
Afterwards there are as many paths as before. -/
def visit (analysis : Analysis) (scope : ScopeId) (specials : List Special)
    (current : Option Cache) (body : Cache → StateT Walk m Unit) :
    StateT Walk m (Except Refusal Visited) := do
  match analysis.enter? scope specials current with
  | .error refusal => do
      modify (refuse analysis scope refusal)
      pure (.error refusal)
  | .ok entrance => do
      let outside := (← get).paths
      modify (enter analysis scope entrance.dispatch)
      let branches ← runBranches body entrance.base entrance.dispatch
      modify fun walk => { walk with paths := outside }
      pure (.ok ⟨entrance, branches⟩)

end Walk

end FrameLang
