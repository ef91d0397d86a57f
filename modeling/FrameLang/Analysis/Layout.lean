import FrameLang.Scope.Session

/-!
# The layout of a unit

Before any demand is made, one walk over the unit opens its scopes, binds the names that
it declares and notes what has to be done afterwards.  The outcome is a scope tree that
has only declared names in it, and a `Layout`: which node is evaluated in which scope,
which node defines which name, which node opened which scope, which lookups there are,
and which demands the constructs of the unit make.

Nothing in a layout changes after the walk.
-/

namespace FrameLang

/-- A node and the scope it is evaluated in. -/
structure Placement where
  expr : Expr
  scope : ScopeId
  deriving Repr

/-- A single request that a construct makes. -/
inductive Ask where
  /-- Some of the given kinds are demanded of a node. -/
  | node (id : NodeId) (kinds : Kinds)
  /-- The value of an attribute is demanded, of whatever kind.  It is demanded through the
  name it defines, if it defines one, so that the name learns what the value is. -/
  | definition (value : NodeId)
  deriving DecidableEq, Repr

/-- What one construct asks for.  The priority of the scope says when. -/
structure Demand where
  scope : ScopeId
  asks : List Ask
  deriving DecidableEq, Repr

/-- The outcome of the walk over a unit, apart from the scopes and names. -/
structure Layout where
  /-- Every node. -/
  nodes : Table NodeId Placement
  /-- The name that the value of an attribute defines. -/
  bindings : Table NodeId NameId
  /-- The scope that a construct opened. -/
  opened : Table NodeId ScopeId
  /-- The lookups, in the order of the walk. -/
  lookups : List NodeId
  /-- The demands, in the order of the walk. -/
  demands : List Demand
  deriving Repr

namespace Layout

/-- The layout of nothing. -/
def empty : Layout := ⟨∅, ∅, ∅, [], []⟩

instance : EmptyCollection Layout := ⟨empty⟩
instance : Inhabited Layout := ⟨empty⟩

/-- Note the scope that a node is evaluated in. -/
def place (layout : Layout) (expr : Expr) (scope : ScopeId) : Layout :=
  { layout with nodes := layout.nodes.insert expr.id ⟨expr, scope⟩ }

/-- Note that a value defines a name. -/
def bind (layout : Layout) (value : NodeId) (name : NameId) : Layout :=
  { layout with bindings := layout.bindings.insert value name }

/-- Note that a construct opened a scope. -/
def openAt (layout : Layout) (node : NodeId) (scope : ScopeId) : Layout :=
  { layout with opened := layout.opened.insert node scope }

/-- Note a lookup. -/
def addLookup (layout : Layout) (node : NodeId) : Layout :=
  { layout with lookups := layout.lookups ++ [node] }

/-- Note what a construct asks for. -/
def addDemand (layout : Layout) (scope : ScopeId) (asks : List Ask) : Layout :=
  { layout with demands := layout.demands ++ [⟨scope, asks⟩] }

end Layout

/-! ## The walk -/

namespace Survey

open ScopeM

/-- Open a scope inside another one. -/
def openInside (outer : ScopeId) (span : Span) (delegates : Bool) : ScopeM Layout ScopeId := do
  let scope := (← tree).nextScope
  modifyTree fun tree => tree.openInside outer span delegates
  pure scope

/-- Open the scope of a construct. -/
def openFor (mark : Mark) (outer : ScopeId) (delegates : Bool) : ScopeM Layout ScopeId := do
  let scope ← openInside outer mark.span delegates
  modifyDefs fun layout => layout.openAt mark.id scope
  pure scope

/-- Bind a name to its value, or report that the name is taken. -/
def bind (scope : ScopeId) (name : String) (value : NodeId) (span : Span) :
    ScopeM Layout Unit := do
  let before ← tree
  match before.bind? scope name value with
  | some grown => do
      modifyTree fun _ => grown
      modifyDefs fun layout => layout.bind value before.nextName
  | none => report fun reporter => reporter.duplicateAttribute span name

/-- Bind every attribute of a construct. -/
def bindAttributes (scope : ScopeId) (attributes : List (Attribute Expr)) : ScopeM Layout Unit :=
  attributes.forM fun item => bind scope item.name item.value.id item.span

/-- Bind every override of an instantiation. -/
def bindOverrides (scope : ScopeId) (overrides : List (Override Expr)) : ScopeM Layout Unit :=
  overrides.forM fun item => bind scope item.name item.value.id item.span

/-- Note what a construct asks for. -/
def ask (scope : ScopeId) (asks : List Ask) : ScopeM Layout Unit :=
  modifyDefs fun layout => layout.addDemand scope asks

/-- The requests for the values of all attributes. -/
def asksOfAttributes (attributes : List (Attribute Expr)) : List Ask :=
  attributes.map fun item => .definition item.value.id

/-- The requests for the values of all overrides. -/
def asksOfOverrides (overrides : List (Override Expr)) : List Ask :=
  overrides.map fun item => .definition item.value.id

mutual

/-- Lay out an expression that is evaluated in a given scope. -/
def walk (scope : ScopeId) : Expr → ScopeM Layout Unit
  | expr@(.literal _ _) => modifyDefs fun layout => layout.place expr scope
  | expr@(.lookup mark _) => do
      modifyDefs fun layout => layout.place expr scope
      modifyDefs fun layout => layout.addLookup mark.id
  | expr@(.coalesce _ primary fallback) => do
      modifyDefs fun layout => layout.place expr scope
      walk scope primary
      walk scope fallback
  | expr@(.conditional _ condition consequent alternative) => do
      modifyDefs fun layout => layout.place expr scope
      walk scope condition
      walk scope consequent
      walk scope alternative
      ask scope [.node condition.id {.bool}]
  | expr@(.arithmetic mark _ left right) => do
      modifyDefs fun layout => layout.place expr scope
      walk scope left
      walk scope right
      ask scope [.node mark.id .any]
  | expr@(.enforce mark value _) => do
      modifyDefs fun layout => layout.place expr scope
      walk scope value
      ask scope [.node mark.id .any]
  | expr@(.frame mark attributes) => do
      modifyDefs fun layout => layout.place expr scope
      let inner ← openFor mark scope false
      bindAttributes inner attributes
      walkAttributes inner attributes
      ask inner (asksOfAttributes attributes)
  | expr@(.template mark attributes) => do
      modifyDefs fun layout => layout.place expr scope
      let inner ← openFor mark scope false
      bindAttributes inner attributes
      walkAttributes inner attributes
      ask inner (asksOfAttributes attributes)
  | expr@(.letIn mark bindings body) => do
      modifyDefs fun layout => layout.place expr scope
      let inner ← openFor mark scope true
      bindAttributes inner bindings
      walkAttributes inner bindings
      walk inner body
      ask inner (asksOfAttributes bindings)
  | expr@(.hide mark names body) => do
      modifyDefs fun layout => layout.place expr scope
      let inner ← openFor mark scope true
      names.forM fun name => modifyTree fun tree => tree.forbid inner name
      walk inner body
  | expr@(.instantiate mark base overrides) => do
      modifyDefs fun layout => layout.place expr scope
      walk scope base
      let inner ← openFor mark scope false
      bindOverrides inner overrides
      walkOverrides inner overrides
      ask inner (.node base.id {.template} :: asksOfOverrides overrides)

/-- Lay out the values of attributes. -/
def walkAttributes (scope : ScopeId) : List (Attribute Expr) → ScopeM Layout Unit
  | [] => pure ()
  | ⟨_, _, value⟩ :: rest => do
      walk scope value
      walkAttributes scope rest

/-- Lay out the values of overrides.  A value that amends has a scope of its own, in which
the name it chose means what it replaces. -/
def walkOverrides (scope : ScopeId) : List (Override Expr) → ScopeM Layout Unit
  | [] => pure ()
  | ⟨_, _, none, value⟩ :: rest => do
      walk scope value
      walkOverrides scope rest
  | ⟨_, _, some replaced, value⟩ :: rest => do
      let inner ← openInside scope value.span false
      modifyTree fun tree => tree.nameReplaced inner replaced
      walk inner value
      walkOverrides scope rest

end

/-- The scope of the whole unit. -/
def root : ScopeId := ⟨0⟩

/-- Lay out a unit.  The last demand of all is for the unit itself. -/
def unit (expr : Expr) (topLevel : Bool) : ScopeM Layout Unit := do
  modifyTree fun tree => tree.openRoot expr.span topLevel
  walk root expr
  ask root [.node expr.id .any]

/-- The session of a unit of a given file after the walk. -/
def ofUnit (expr : Expr) (file : String) (topLevel : Bool) : Session Layout :=
  ((unit expr topLevel).run ⟨∅, .new file, [], ∅⟩).2

end Survey

end FrameLang
