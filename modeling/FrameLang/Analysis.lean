import FrameLang.Analysis.Evaluation
import FrameLang.Options

/-!
# Static analysis of a unit

`analyse` finds out which name every lookup of a unit means and which kinds every name
and every node can have.  It goes about it in steps.

1. The walk over the unit lays out its scopes, names, lookups and demands.
2. Every lookup is classified, in the order of the walk.
3. The demands are made, scope by scope: those of scopes with a smaller priority first,
   and those of one priority in the order of the walk.
4. Every masked name is compared with its source: if the two have nothing in common, no
   value can ever satisfy the mask.

A conflict never stops the analysis; everything that is wrong with the unit is reported.
-/

namespace FrameLang

namespace Evaluation

open ScopeM

/-! ## The steps -/

/-- Classify a lookup of the unit. -/
def classify (layout : Layout) (id : NodeId) : ScopeM Progress Unit := do
  match layout.nodes.find? id with
  | some ⟨.lookup mark path, scope⟩ =>
      let _ ← resolve (evaluate layout (depthOf layout) [] [id]) [] scope mark path
      pure ()
  | _ => pure ()

/-- Classify every lookup of the unit. -/
def classifyAll (layout : Layout) : ScopeM Progress Unit :=
  layout.lookups.forM (classify layout)

/-- Make a single request. -/
def answer (layout : Layout) : Ask → ScopeM Progress Unit
  | .node id kinds => do
      let _ ← definer layout id kinds false
      pure ()
  | .definition value => do
      match layout.bindings.find? value with
      | some name => do
          let _ ← ensure (definer layout) name .any false
          pure ()
      | none => do
          let _ ← definer layout value .any false
          pure ()

/-- Make demands one after the other. -/
def meet (layout : Layout) (demands : List Demand) : ScopeM Progress Unit :=
  demands.forM fun demand => demand.asks.forM (answer layout)

/-- When the demand of a construct is made. -/
def priority (tree : ScopeTree) (demand : Demand) : Nat := (tree.scope demand.scope).priority

/-- Demands in ascending priority; those of one priority stay in order. -/
def byPriority (tree : ScopeTree) (demands : List Demand) : List Demand :=
  let last := demands.foldl (fun last demand => max last (priority tree demand)) 0
  (List.range (last + 1)).flatMap fun level =>
    demands.filter fun demand => priority tree demand = level

/-- Report a masked name that has nothing in common with its source. -/
def checkMask (id : NameId) : ScopeM Progress Unit := do
  let tree ← tree
  match (tree.name id).origin with
  | .masked source mask =>
      let known := tree.possible source
      if known.meets mask then pure ()
      else report fun reporter =>
        reporter.maskConflict (tree.spanOfName id) (tree.name id).path known mask
  | _ => pure ()

/-- Compare every masked name with its source, in the order of the names. -/
def checkMasks : ScopeM Progress Unit := do
  (← tree).nameIds.forM checkMask

/-- Make demands in order, and compare the masks afterwards. -/
def settle (layout : Layout) (demands : List Demand) : ScopeM Progress Unit := do
  meet layout demands
  checkMasks

/-- The session that evaluation starts from: what the walk found, and nothing proven. -/
def start (surveyed : Session Layout) : Session Progress :=
  ⟨surveyed.tree, surveyed.reporter, surveyed.trace, ∅⟩

/-- The session after every lookup has been classified. -/
def classified (surveyed : Session Layout) : Session Progress :=
  ((classifyAll surveyed.defs).run (start surveyed)).2

/-- The session at the end. -/
def finished (surveyed : Session Layout) : Session Progress :=
  let session := classified surveyed
  ((settle surveyed.defs (byPriority session.tree surveyed.defs.demands)).run session).2

end Evaluation

/-! ## The outcome -/

/-- What analysis has found out about a unit. -/
structure Analysis where
  file : String
  options : Options
  /-- The scope of the whole unit. -/
  root : ScopeId
  tree : ScopeTree
  layout : Layout
  progress : Progress
  report : Report
  /-- What happened, newest first. -/
  trace : List Event
  deriving Repr

/-- Analyse a unit. -/
def analyse (unit : Expr) (file : String) (options : Options) : Analysis :=
  let surveyed := Survey.ofUnit unit file options.topLevel
  let session := Evaluation.finished surveyed
  { file := file
    options := options
    root := Survey.root
    tree := session.tree
    layout := surveyed.defs
    progress := session.defs
    report := session.reporter.report
    trace := session.trace }

namespace Analysis

/-- True when nothing is wrong with the unit. -/
def success (analysis : Analysis) : Bool := !analysis.report.hasErrors

/-- The scope that a node is evaluated in. -/
def scopeOf? (analysis : Analysis) (node : NodeId) : Option ScopeId :=
  (analysis.layout.nodes.find? node).map Placement.scope

/-- The kinds that a node is proven to have. -/
def kindsOf? (analysis : Analysis) (node : NodeId) : Option Kinds :=
  (analysis.layout.nodes.find? node).map fun _ => analysis.progress.kindsOf node

/-- The scope that a construct opened. -/
def opened? (analysis : Analysis) (node : NodeId) : Option ScopeId :=
  analysis.layout.opened.find? node

/-- The name that a lookup means. -/
def nameOf? (analysis : Analysis) (node : NodeId) : Option NameId :=
  analysis.progress.resolved.find? node

/-- The name that the value of an attribute defines. -/
def bindingOf? (analysis : Analysis) (node : NodeId) : Option NameId :=
  analysis.layout.bindings.find? node

/-- The kinds that a name may have. -/
def possible (analysis : Analysis) (name : NameId) : Kinds := analysis.tree.possible name

/-- Whether the value of a name is needed unboxed. -/
def mustUnbox (analysis : Analysis) (name : NameId) : Bool := analysis.tree.mustUnbox name

/-- The name that a dotted path leads to from a scope, if it has been classified. -/
def find? (analysis : Analysis) (scope : ScopeId) (path : String) : Option NameId :=
  analysis.tree.find? scope (Text.components path)

/-- What is demanded of the result of an arithmetic node. -/
def intrinsic? (analysis : Analysis) (node : NodeId) : Option Intrinsic := do
  analysis.tree.intrinsic? (← analysis.scopeOf? node) node

end Analysis

end FrameLang
