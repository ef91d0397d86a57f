import FrameLang.Scope.Demand

/-!
# Lookups

A lookup of a dotted path starts in one scope with the first component.  If the scope and
all scopes around it say nothing about it, the component becomes a free name of the
scope.  If a scope further out knows it, every scope on the way inherits it.  If the
nearest scope that says anything forbids it, the lookup goes wrong.

A scope that delegates first looks the whole path up in the scope around it, so that
whatever the path reaches exists there before it is inherited.

From the name of the first component the lookup then drills down: every name that has
more components after it has to be a frame.
-/

namespace FrameLang

/-- What a chain of scopes says about a name. -/
inductive Binding where
  | name (id : NameId)
  | forbidden
  | absent
  deriving DecidableEq, Repr

namespace ScopeM

variable {σ : Type}

/-- What the innermost scope of a chain says about a name, once it has inherited it from
the scopes around it. -/
def lookBack (name : String) : List ScopeId → ScopeM σ Binding
  | [] => pure .absent
  | here :: outer => do
      match (← tree).meaning? here name with
      | some (some id) => pure (.name id)
      | some none => pure .forbidden
      | none =>
          match ← lookBack name outer with
          | .name source => do
              let delegates := ((← tree).scope here).delegates
              let copy ← define here name
                (if delegates then .delegated source else .masked source .any)
              pure (.name copy)
          | .forbidden => pure .forbidden
          | .absent => pure .absent

/-- Record a name one component longer than another.

What is inherited has what it is inherited from as its pattern: a delegated name makes
sure that its source has the child, and a masked name uses the source's child if there is
one.  Otherwise the child is free. -/
def createChild (definer : Definer σ) (id : NameId) (component : String) : ScopeM σ NameId := do
  let record := (← tree).name id
  let origin ← match record.origin with
    | .junk => pure .junk
    | .free _ | .replaced _ | .bound _ _ => pure (.free .any)
    | .masked source _ =>
        if _h : source.index < id.index then do
          if (← tree).hasChild source component then
            let _ ← ensure definer source {.frame} false
            let inherited ← match (← tree).child? source component with
              | some child => pure child
              | none => createChild definer source component
            pure (.masked inherited .any)
          else pure (.free .any)
        else pure (.free .any)
    | .delegated source =>
        if _h : source.index < id.index then do
          if !(← tree).hasChild source component then
            let _ ← createChild definer source component
          if (← tree).hasChild source component then
            let _ ← ensure definer source {.frame} false
            let inherited ← match (← tree).child? source component with
              | some child => pure child
              | none => createChild definer source component
            pure (.delegated inherited)
          else pure (.free .any)
        else pure (.free .any)
  let child ← addName (.new (record.path ++ "." ++ component) record.scope? origin)
  modifyTree fun tree => tree.setChild id component child
  pure child
termination_by id.index

/-- The record of a name one component longer than another, made if there is none. -/
def childOf (definer : Definer σ) (id : NameId) (component : String) : ScopeM σ NameId := do
  match (← tree).child? id component with
  | some child => pure child
  | none => createChild definer id component

/-- Go down from a name along the components that follow it. -/
def drill (definer : Definer σ) : NameId → List String → ScopeM σ NameId
  | id, [] => pure id
  | id, component :: rest => do
      let _ ← ensure definer id {.frame} false
      let child ← childOf definer id component
      drill definer child rest

/-- Look a path up along a chain of scopes, starting in the innermost one. -/
def lookupAlong (definer : Definer σ) (first : String) (rest : List String) (span : Span) :
    List ScopeId → ScopeM σ NameId
  | [] => junk
  | here :: outer => do
      match (← tree).meaning? here first with
      | some (some id) => drill definer id rest
      | some none => do
          report fun reporter => reporter.forbiddenName span first
          junk
      | none => do
          let wentWrong ←
            if ((← tree).scope here).delegates && !outer.isEmpty then do
              let found ← lookupAlong definer first rest span outer
              pure ((← tree).isJunk found)
            else pure false
          if wentWrong then junk
          else
            match ← lookBack first (here :: outer) with
            | .name id => drill definer id rest
            | .forbidden => do
                report fun reporter => reporter.forbiddenName span first
                junk
            | .absent => do
                let id ← define here first (.free .any)
                drill definer id rest

/-- Look a path up in a scope. -/
def lookup (definer : Definer σ) (scope : ScopeId) (path : List String) (span : Span) :
    ScopeM σ NameId := do
  match path with
  | [] => do
      report fun reporter => reporter.emptyLookup span
      junk
  | first :: rest => lookupAlong definer first rest span ((← tree).chain scope)

end ScopeM

end FrameLang
