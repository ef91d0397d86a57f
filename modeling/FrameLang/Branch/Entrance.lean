import FrameLang.Analysis
import FrameLang.Branch.Cache

/-!
# Entering a scope

When generated code enters a scope on one path, every name of the scope has to be bound.
Some names are inherited from what the path has obtained already; that is possible only
if the value agrees with the mask of the name.  All others are fetched.  A fetched value
that is needed unboxed has to be of one kind: if only one kind is possible the code checks
it once, and if several are it dispatches over them, one branch for each.

`Analysis.enter?` says all this about one scope, and `Entrance.caches` lists what is known
in each branch.
-/

namespace FrameLang

/-- A name that is fetched on entry to a scope. -/
structure Loaded where
  name : NameId
  value : Loadable
  /-- The kinds that the value may have on this path. -/
  possible : Kinds
  needsUnbox : Bool
  deriving DecidableEq, Repr

/-- True when a fetched value can be used as it is, without a check or a dispatch. -/
def Loaded.direct (loaded : Loaded) : Bool :=
  loaded.value.backing ≠ .any || !loaded.needsUnbox

/-- A value that the scope writes itself, such as the variable of an iteration, with the
kinds that it is known to take. -/
structure Special where
  name : String
  observed : Kinds
  deriving DecidableEq, Repr

/-- An inherited name whose value on this path is of a kind that its mask excludes. -/
structure Violation where
  path : String
  mask : Kinds
  found : Kinds
  deriving DecidableEq, Repr

/-- A violation as diagnostics show it. -/
def Violation.describe (violation : Violation) : String :=
  s!"Value for “{violation.path}” must be {violation.mask.describe}, " ++
    s!"but it is {violation.found.describe}."

/-- Violations as diagnostics show them, one line each. -/
def Violation.describeAll (violations : List Violation) : String :=
  "\n".intercalate (violations.map describe)

/-- Why a scope cannot be entered on a path. -/
inductive Refusal where
  /-- Inherited values have kinds that the scope excludes. -/
  | narrowing (violations : List Violation)
  /-- A fetched name has no kind left. -/
  | uninhabited (path : String)
  /-- A name was never classified. -/
  | invalidName (path : String)
  deriving DecidableEq, Repr

/-- The wording of a refusal. -/
def Refusal.message : Refusal → String
  | narrowing violations => Violation.describeAll violations
  | uninhabited path => s!"no value of “{path}” can reach this scope"
  | invalidName path => s!"attempted to load invalid name “{path}”"

/-- What it takes to enter a scope. -/
structure Entrance where
  /-- The names that are fetched, in order. -/
  loads : List Loaded
  /-- The fetched names that are checked once, with their only kind. -/
  checks : List (NameId × Kinds)
  /-- The fetched names that are dispatched over. -/
  dispatch : List Loaded
  /-- What is known in every branch. -/
  base : Cache
  deriving Repr

/-- For an inherited name, where it is inherited from and the kinds that this scope lets
in. -/
def Origin.inheritance? : Origin → Option (NameId × Kinds)
  | masked source mask => some (source, mask)
  | delegated source => some (source, .any)
  | _ => none

namespace Analysis

/-! ## Fetching -/

/-- Whether a name has to be fetched, given what the path has obtained. -/
def needsLoad (analysis : Analysis) (cache : Cache) (name : NameId) : Bool :=
  match (analysis.tree.name name).origin with
  | .free _ => true
  | .replaced _ | .junk => false
  | .bound _ _ => !cache.contains name
  | .masked source _ | .delegated source =>
      match cache.find? source with
      | none => true
      | some value => analysis.mustUnbox name && value.backing = .any

/-- How a name is fetched, given what the path has obtained. -/
def load (analysis : Analysis) (cache : Cache) (name : NameId) : Except Refusal Loaded :=
  let record := analysis.tree.name name
  let fetched (value : Loadable) : Loaded :=
    ⟨name, value, analysis.possible name, analysis.mustUnbox name⟩
  match record.origin with
  | .junk => .error (.invalidName record.path)
  | .replaced _ => .ok (fetched .replaced)
  | .free _ | .bound _ _ => .ok (fetched (.lookup record.path))
  | .masked source _ | .delegated source =>
      .ok (fetched ((cache.find? source).getD (.lookup record.path)))

/-! ## Inheriting -/

/-- Compare one name with what the path has obtained for its source: the value is put into
`next`, or the mask is violated. -/
def inherit (analysis : Analysis) (current : Cache) (state : Cache × List Violation)
    (name : NameId) : Cache × List Violation :=
  let record := analysis.tree.name name
  match record.origin.inheritance? with
  | none => state
  | some (source, mask) =>
      match current.find? source with
      | none => state
      | some value =>
          if value.backing.meets mask then (state.1.insert name value, state.2)
          else (state.1, state.2 ++ [⟨record.path, mask, value.backing⟩])

/-- Compare every name of a scope with what the path has obtained: the values that agree
are put into `next`, and the violations are listed in the order of the names. -/
def narrow (analysis : Analysis) (scope : ScopeId) (next current : Cache) :
    Cache × List Violation :=
  (analysis.tree.allNames scope).foldl (analysis.inherit current) (next, [])

/-! ## Entering -/

/-- The cache before anything is fetched: what is replaced by overrides is at hand. -/
def withReplaced (analysis : Analysis) (names : List NameId) (cache : Cache) : Cache :=
  names.foldl (fun cache name =>
    match (analysis.tree.name name).origin with
    | .replaced _ => cache.insert name .replaced
    | _ => cache) cache

/-- The fetched form of a special, if the scope knows its name. -/
def loadSpecial? (analysis : Analysis) (scope : ScopeId) (special : Special) : Option Loaded :=
  ((analysis.tree.scope scope).local? special.name).map fun name =>
    let kinds := analysis.possible name ∩ special.observed
    ⟨name, .special special.name kinds, kinds, analysis.mustUnbox name⟩

/-- Decide what is done with a fetched name: it is used as it is, checked, or dispatched
over. -/
def settleLoad (analysis : Analysis) (entrance : Entrance) (loaded : Loaded) :
    Except Refusal Entrance :=
  if loaded.possible.isEmpty then
    .error (.uninhabited (analysis.tree.name loaded.name).path)
  else if loaded.direct then
    .ok { entrance with base := entrance.base.insert loaded.name loaded.value }
  else if loaded.possible.isSingleton then
    .ok { entrance with
      base := entrance.base.insert loaded.name (.unboxed loaded.value loaded.possible)
      checks := entrance.checks ++ [(loaded.name, loaded.possible)] }
  else .ok { entrance with dispatch := entrance.dispatch ++ [loaded] }

/-- What the path passes on to a scope: the cache before anything is fetched, and the
violations. -/
def passOn (analysis : Analysis) (scope : ScopeId) (current : Option Cache) :
    Cache × List Violation :=
  let base := analysis.withReplaced (analysis.tree.allNames scope) (.layerOn current)
  match current with
  | none => (base, [])
  | some cache => analysis.narrow scope base cache

/-- What it takes to enter a scope, given what the path has obtained.  The values that the
scope writes itself come first; all other names are fetched in the order of the scope. -/
def enter? (analysis : Analysis) (scope : ScopeId) (specials : List Special)
    (current : Option Cache) : Except Refusal Entrance := do
  let (base, violations) := analysis.passOn scope current
  if !violations.isEmpty then throw (.narrowing violations)
  let written := specials.filterMap (analysis.loadSpecial? scope)
  let fetched ← (analysis.tree.allNames scope).filterMapM fun name =>
    if name ∈ written.map Loaded.name || !analysis.needsLoad base name then pure none
    else (analysis.load base name).map some
  let loads := written ++ fetched
  loads.foldlM analysis.settleLoad ⟨loads, [], [], base⟩

end Analysis

/-! ## Branches -/

/-- What is known in the branch of one kind of a name that is dispatched over, on top of a cache. -/
def Loaded.branch (loaded : Loaded) (cache : Cache) (kind : Kind) : Cache :=
  (Cache.layerOn (some cache)).insert loaded.name (.unboxed loaded.value {kind})

theorem Loaded.find?_branch (loaded : Loaded) (cache : Cache) (kind : Kind) (name : NameId) :
    (loaded.branch cache kind).find? name =
      if loaded.name = name then some (.unboxed loaded.value {kind}) else cache.find? name := by
  rw [branch, Cache.find?_insert, Cache.find?_layerOn_some]

namespace Entrance

/-- What is known in each branch of a dispatch, on top of a cache: the first name changes
slowest, and the kinds of each name come in canonical order. -/
def branches (cache : Cache) : List Loaded → List Cache
  | [] => [cache]
  | loaded :: rest =>
      loaded.possible.toList.flatMap fun kind => branches (loaded.branch cache kind) rest

/-- What is known in each branch of a scope. -/
def caches (entrance : Entrance) : List Cache := branches entrance.base entrance.dispatch

end Entrance

end FrameLang
