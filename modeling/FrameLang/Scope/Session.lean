import FrameLang.Report
import FrameLang.Scope.Tree

/-!
# Sessions

The operations on a scope tree need more than the tree: they report what goes wrong, and
when they meet a bound name they have to ask what its definition can produce.  The tree
does not know definitions, so whoever runs the operations supplies a `Definer`, together
with a state of its own that the definer may use.

A session also keeps a trace of what was asked and answered, newest event first.  Nothing
depends on the trace; it is there so that statements about whole runs can be made.
-/

namespace FrameLang

/-- Something that happened in a session. -/
inductive Event where
  /-- A demand on a name was made. -/
  | asked (name : NameId) (demanded : Kinds) (unbox : Bool)
  /-- A demand on a name came back with what the name is proven to have. -/
  | answered (name : NameId) (proven : Kinds)
  /-- A demand was handed on to a definition. -/
  | defining (node : NodeId) (demanded : Kinds) (unbox : Bool)
  /-- The evaluation of a node began. -/
  | entered (node : NodeId) (demanded : Kinds)
  /-- A node was met while its evaluation was going on. -/
  | reentered (node : NodeId)
  /-- The evaluation of a node ended. -/
  | left (node : NodeId) (proven : Kinds)
  /-- The search for the name that a lookup means began. -/
  | searching (node : NodeId)
  /-- A lookup was found to mean a name. -/
  | resolved (node : NodeId) (name : NameId)
  deriving DecidableEq, Repr

/-- The state that operations on a scope tree share. -/
structure Session (σ : Type) where
  tree : ScopeTree
  reporter : Reporter
  /-- What has happened so far, newest first. -/
  trace : List Event
  /-- The state of whoever supplies the definitions. -/
  defs : σ

/-- An operation within a session. -/
abbrev ScopeM (σ : Type) := StateM (Session σ)

/-- What supplies definitions: asked for a node, the kinds demanded of it and whether its
value is needed unboxed, it says which kinds the node can produce. -/
abbrev Definer (σ : Type) := NodeId → Kinds → Bool → ScopeM σ Kinds

namespace ScopeM

variable {σ : Type}

/-- The tree as it is now. -/
def tree : ScopeM σ ScopeTree := do pure (← get).tree

/-- Change the tree. -/
def modifyTree (change : ScopeTree → ScopeTree) : ScopeM σ Unit :=
  modify fun session => { session with tree := change session.tree }

/-- Report something. -/
def report (change : Reporter → Reporter) : ScopeM σ Unit :=
  modify fun session => { session with reporter := change session.reporter }

/-- Put an event on the trace. -/
def note (event : Event) : ScopeM σ Unit :=
  modify fun session => { session with trace := event :: session.trace }

/-- Change the state of the definitions. -/
def modifyDefs (change : σ → σ) : ScopeM σ Unit :=
  modify fun session => { session with defs := change session.defs }

/-- The state of the definitions as it is now. -/
def defs : ScopeM σ σ := do pure (← get).defs

/-- Add a record to the tree. -/
def addName (record : NameRecord) : ScopeM σ NameId :=
  modifyGet fun session =>
    (session.tree.nextName, { session with tree := session.tree.addName record })

/-- Add a record to a scope under a name of one component. -/
def define (scope : ScopeId) (name : String) (origin : Origin) : ScopeM σ NameId :=
  modifyGet fun session =>
    (session.tree.nextName, { session with tree := session.tree.define scope name origin })

/-- A new record for a lookup that went wrong. -/
def junk : ScopeM σ NameId := addName .junk

end ScopeM

end FrameLang
