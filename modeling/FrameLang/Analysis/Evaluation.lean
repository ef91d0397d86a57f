import FrameLang.Analysis.Layout
import FrameLang.Scope.Lookup

/-!
# Evaluating nodes

To evaluate a node is to demand some kinds of it and to find out which of them it can
produce.  The rule of each construct says which kinds it demands of the nodes inside it
and how it puts the answers together.

Definitions may refer to each other in circles, and classifying a lookup may evaluate
other nodes on the way.  A node that is met again while it is being evaluated answers
with what is proven of it so far, and a lookup that is met again while its name is being
searched has no name yet.

## Strategy

The nodes under evaluation and the lookups being searched are parameters, handed down
from each evaluation to the ones inside it, so they are what they were when an evaluation
comes back.  Every evaluation inside another one has one more active node; since there
are only so many nodes, a depth of one more than the number of nodes is never used up.
-/

namespace FrameLang

/-- What evaluation has found out so far. -/
structure Progress where
  /-- The kinds that a node may still have. -/
  proven : Table NodeId Kinds
  /-- The name that a lookup means. -/
  resolved : Table NodeId NameId
  deriving Repr

namespace Progress

/-- Nothing has been found out yet. -/
def empty : Progress := ⟨∅, ∅⟩

instance : EmptyCollection Progress := ⟨empty⟩
instance : Inhabited Progress := ⟨empty⟩

/-- The kinds that a node may still have. -/
def kindsOf (progress : Progress) (node : NodeId) : Kinds :=
  (progress.proven.find? node).getD .any

/-- Add what an evaluation of a node has proven. -/
def prove (progress : Progress) (node : NodeId) (kinds : Kinds) : Progress :=
  { progress with
    proven := progress.proven.insert node ((progress.kindsOf node).narrow kinds) }

/-- Note the name that a lookup means. -/
def resolve (progress : Progress) (node : NodeId) (name : NameId) : Progress :=
  { progress with resolved := progress.resolved.insert node name }

end Progress

/-! ## Putting answers together -/

/-- What a coalescing expression can produce: what its primary branch contributes, null
aside, and what the fallback produces, as far as it is demanded. -/
def coalesced (primary fallback demanded : Kinds) : Kinds :=
  let merged := (primary.coalescing demanded \ {.unit}) ∪ fallback
  if merged.meets demanded then merged ∩ demanded else fallback

/-- What an arithmetic operation can produce: an integer if both operands can be
integers, a floating-point number if one of them can be one, and any number if the
operands rule out both. -/
def arithmeticKinds (left right : Kinds) : Kinds :=
  let natural :=
    (if .int ∈ left ∧ .int ∈ right then {.int} else ∅) ∪
      (if .float ∈ left ∪ right then {.float} else ∅)
  if natural.isEmpty then .number else natural

namespace Evaluation

open ScopeM

/-- Evaluate a node whose kinds do not depend on anything. -/
def leaf (span : Span) (natural demanded : Kinds) : ScopeM Progress Kinds :=
  if natural.meets demanded then pure (natural ∩ demanded)
  else do
    report fun reporter => reporter.expressionConflict span natural demanded
    pure natural

/-- The name that a lookup means, searched when it is met for the first time.  There is
none while the search for it is going on. -/
def resolve (definer : Definer Progress) (searching : List NodeId) (scope : ScopeId)
    (mark : Mark) (path : List String) : ScopeM Progress (Option NameId) := do
  match (← defs).resolved.find? mark.id with
  | some name => pure (some name)
  | none =>
      if mark.id ∈ searching then pure none
      else do
        note (.searching mark.id)
        let name ← lookup definer scope path mark.span
        modifyDefs fun progress => progress.resolve mark.id name
        note (.resolved mark.id name)
        pure (some name)

/-- The rule of each construct.  `again` evaluates the nodes inside it, and `during` those
that are met while the name of a lookup is searched. -/
def rule (again during : Definer Progress) (searching : List NodeId) (scope : ScopeId)
    (demanded : Kinds) (unbox : Bool) : Expr → ScopeM Progress Kinds
  | .literal mark value => leaf mark.span {value.kind} demanded
  | .frame mark _ | .instantiate mark _ _ => leaf mark.span {.frame} demanded
  | .template mark _ => leaf mark.span {.template} demanded
  | .lookup mark path => do
      match ← resolve during searching scope mark path with
      | some name => ensure again name demanded unbox
      | none => pure demanded
  | .coalesce _ primary fallback => do
      let fallback ← again fallback.id demanded unbox
      let primary ← again primary.id (demanded ∪ {.unit}) unbox
      pure (coalesced primary fallback demanded)
  | .conditional _ _ consequent alternative => do
      let consequent ← again consequent.id demanded unbox
      let alternative ← again alternative.id demanded unbox
      pure ((consequent ∪ alternative).narrow demanded)
  | .arithmetic mark _ left right => do
      let left ← again left.id .number true
      let right ← again right.id .number true
      let _ ← ensureIntrinsic scope mark.id (arithmeticKinds left right) true mark.span
      ensureIntrinsic scope mark.id demanded unbox mark.span
  | .enforce mark value kinds => do
      let _ ← again value.id kinds true
      leaf mark.span kinds demanded
  | .letIn _ _ body | .hide _ _ body => again body.id demanded unbox

/-- Evaluate a node, given the nodes under evaluation and the lookups being searched. -/
def evaluate (layout : Layout) :
    (depth : Nat) → (active searching : List NodeId) → Definer Progress
  | 0, _, _ => fun _ demanded _ => pure demanded
  | depth + 1, active, searching => fun id demanded unbox => do
      match layout.nodes.find? id with
      | none => pure demanded
      | some ⟨expr, scope⟩ =>
          if id ∈ active then do
            note (.reentered id)
            pure ((← defs).kindsOf id)
          else do
            note (.entered id demanded)
            let proven ←
              rule (evaluate layout depth (id :: active) searching)
                (evaluate layout depth (id :: active) (id :: searching))
                searching scope demanded unbox expr
            modifyDefs fun progress => progress.prove id proven
            note (.left id proven)
            pure proven

/-- The depth that no evaluation of a unit uses up. -/
def depthOf (layout : Layout) : Nat := layout.nodes.size + 1

/-- Evaluate a node while no other node is being evaluated. -/
def definer (layout : Layout) : Definer Progress :=
  evaluate layout (depthOf layout) [] []

end Evaluation

end FrameLang
