import FrameLang.Proofs.Analysis.Evaluation
import FrameLang.Proofs.Analysis.Survey
import FrameLang.Proofs.Scope.Narrowing

/-!
# Narrowing in an analysis

An analysis is made of operations on one scope tree: the walk declares what the unit
declares, and evaluation demands and looks up.  So the tree is narrowed from step to
step, and what is known of the nodes is narrowed along with it
(`Evaluation.finished_narrowing`).

## Strategy

The nodes that are evaluated on behalf of a lookup or a bound name act by operations
themselves, so an evaluation consists of operations, by induction on its depth
(`Evaluation.evaluate_operated`).  Then nothing is left to be said about evaluation but
how it changes what is known of the nodes (`Progress.Learns`).
-/

namespace FrameLang

/-- What is known of one node is narrowed, or a lookup is found to mean a name. -/
inductive Progress.Learns (before : Progress) : Progress → Prop where
  | prove (node : NodeId) (kinds : Kinds) : Learns before (before.prove node kinds)
  | resolve (node : NodeId) (name : NameId) : Learns before (before.resolve node name)

theorem Progress.Learns.le {before after : Progress} (h : before.Learns after) :
    before ≤ after := by
  cases h with
  | prove node kinds => exact before.le_prove node kinds
  | resolve node name => exact before.le_resolve node name

/-- Only a change of the state of the definitions changes it. -/
theorem Session.Step.defs_or {σ : Type} {own : σ → σ → Prop} {before after : Session σ}
    (h : before.Step own after) : after.defs = before.defs ∨ own before.defs after.defs := by
  cases h with
  | own h => exact .inr h
  | _ => exact .inl rfl

namespace Evaluation

open ScopeM

/-! ## Evaluation by operations -/

/-- A definer that gets by with operations. -/
def Operates (definer : Definer Progress) : Prop :=
  ∀ node demanded unbox (session : Session Progress),
    session.Operated Progress.Learns ((definer node demanded unbox).run session).2

variable {again during : Definer Progress} {session : Session Progress}

theorem leaf_operated (span : Span) (natural demanded : Kinds) (session : Session Progress) :
    session.Operated Progress.Learns ((leaf span natural demanded).run session).2 := by
  rw [run_leaf]
  split
  · exact .refl session
  · exact .reporting session _

theorem ensure_operated (hagain : Operates again) (id : NameId) (demanded : Kinds) (unbox : Bool)
    (session : Session Progress) :
    session.Operated Progress.Learns ((ensure again id demanded unbox).run session).2 :=
  .ensure session again (fun node demanded unbox later _ _ => hagain node demanded unbox later)
    id demanded unbox

theorem resolve_operated (hduring : Operates during) (searching : List NodeId) (scope : ScopeId)
    (mark : Mark) (path : List String) (session : Session Progress) :
    session.Operated Progress.Learns
      ((resolve during searching scope mark path).run session).2 := by
  rw [run_resolve]
  cases session.defs.resolved.find? mark.id with
  | some name => exact .refl session
  | none =>
      dsimp only
      split
      · exact .refl session
      · have hnoted : session.Operated Progress.Learns (session.noting (.searching mark.id)) :=
          .noting session _
        have hfound := hnoted.trans (.lookup _ during
          (fun node demanded unbox later _ _ => hduring node demanded unbox later)
          scope path mark.span)
        exact (hfound.trans (.own (.resolve mark.id _))).trans (.noting _ _)

theorem rule_operated (hagain : Operates again) (hduring : Operates during)
    (searching : List NodeId) (scope : ScopeId) (demanded : Kinds) (unbox : Bool) (expr : Expr)
    (session : Session Progress) :
    session.Operated Progress.Learns
      ((rule again during searching scope demanded unbox expr).run session).2 := by
  rw [run_rule]
  cases expr.way with
  | leaf natural => exact leaf_operated expr.span natural demanded session
  | lookup path =>
      have hfound := resolve_operated hduring searching scope expr.mark path session
      dsimp only
      cases ((resolve during searching scope expr.mark path).run session).1 with
      | some name => exact hfound.trans (ensure_operated hagain name demanded unbox _)
      | none => exact hfound
  | coalesce primary fallback => exact (hagain fallback _ _ _).trans (hagain primary _ _ _)
  | choose consequent alternative =>
      exact (hagain consequent _ _ _).trans (hagain alternative _ _ _)
  | arithmetic left right =>
      have hoperands := (hagain left .number true session).trans (hagain right .number true _)
      exact (hoperands.trans (.ensureIntrinsic ..)).trans (.ensureIntrinsic ..)
  | enforce value kinds => exact (hagain value kinds true _).trans (leaf_operated ..)
  | body node => exact hagain node demanded unbox session

theorem evaluate_operated (layout : Layout) (depth : Nat) (active searching : List NodeId) :
    Operates (evaluate layout depth active searching) := by
  induction depth generalizing active searching with
  | zero => exact fun _ _ _ session => .refl session
  | succ depth ih =>
      intro id demanded unbox session
      rw [run_evaluate_succ]
      cases layout.nodes.find? id with
      | none => exact .refl session
      | some placement =>
          dsimp only
          split
          · exact .noting session _
          · have hproven := rule_operated (ih (id :: active) searching)
              (ih (id :: active) (id :: searching)) searching placement.scope demanded unbox
              placement.expr (session.noting (.entered id demanded))
            have hentered : session.Operated Progress.Learns
                (session.noting (.entered id demanded)) := .noting session _
            exact ((hentered.trans hproven).trans (.own (.prove id _))).trans (.noting _ _)

/-- What operations do, one after the other. -/
theorem forM_operated {α : Type} {step : α → ScopeM Progress PUnit} (items : List α)
    (hstep : ∀ item (session : Session Progress),
      session.Operated Progress.Learns ((step item).run session).2) (session : Session Progress) :
    session.Operated Progress.Learns ((items.forM step).run session).2 :=
  forM_preserves (session.Operated Progress.Learns) items
    (fun item _ later h => h.trans (hstep item later)) (.refl session)

theorem classify_operated (layout : Layout) (id : NodeId) (session : Session Progress) :
    session.Operated Progress.Learns ((classify layout id).run session).2 := by
  unfold classify
  split
  · exact resolve_operated (evaluate_operated layout (depthOf layout) [] [id]) [] _ _ _ session
  · exact .refl session

theorem answer_operated (layout : Layout) (ask : Ask) (session : Session Progress) :
    session.Operated Progress.Learns ((answer layout ask).run session).2 := by
  have hdefiner : Operates (definer layout) := evaluate_operated layout (depthOf layout) [] []
  cases ask with
  | node id kinds => exact hdefiner id kinds false session
  | definition value =>
      unfold answer
      dsimp only
      split
      · exact ensure_operated hdefiner _ .any false session
      · exact hdefiner value .any false session

theorem checkMasks_operated (session : Session Progress) :
    session.Operated Progress.Learns (checkMasks.run session).2 := by
  obtain ⟨reporter, hchecked⟩ := checkMasks_reports session
  rw [hchecked]
  exact .reporting session reporter

theorem finished_operated (surveyed : Session Layout) :
    (start surveyed).Operated Progress.Learns (finished surveyed) := by
  have hclassified : (start surveyed).Operated Progress.Learns (classified surveyed) :=
    forM_operated _ (classify_operated surveyed.defs) _
  have hmet : ∀ (demands : List Demand) (session : Session Progress),
      session.Operated Progress.Learns ((meet surveyed.defs demands).run session).2 :=
    fun demands => forM_operated demands
      fun demand => forM_operated demand.asks (answer_operated surveyed.defs)
  exact (hclassified.trans (hmet _ _)).trans (checkMasks_operated _)

/-! ## What is known of nodes -/

/-- A step of an evaluation that narrows, both the tree and what is known of the nodes. -/
structure Narrowing (before after : Session Progress) : Prop
    extends before.Narrowing Progress.Learns after where
  kinds : ∀ node, after.defs.kindsOf node ⊆ before.defs.kindsOf node
  possible : ∀ node, after.defs.kindsOf node ≠ ∅

/-- Each step of an evaluation narrows. -/
theorem narrowing_of_runs {before after : Session Progress}
    (h : Relation.ReflTransGen (Session.Narrowing Progress.Learns) before after)
    (hbefore : ∀ node, before.defs.kindsOf node ≠ ∅) :
    Relation.ReflTransGen Narrowing before after ∧ ∀ node, after.defs.kindsOf node ≠ ∅ := by
  induction h with
  | refl => exact ⟨.refl, hbefore⟩
  | @tail second third _ hstep ih =>
      obtain ⟨hruns, hsecond⟩ := ih
      have hlater : second.defs ≤ third.defs := by
        rcases hstep.step.defs_or with heq | hlearns
        · rw [heq]
        · exact hlearns.le
      have hthird : ∀ node, third.defs.kindsOf node ≠ ∅ :=
        fun node => (hlater.kinds node).nonempty (hsecond node)
      exact ⟨hruns.tail ⟨hstep, fun node => (hlater.kinds node).subset, hthird⟩, hthird⟩

/-- From the walk to the end, each step of an analysis narrows. -/
theorem finished_narrowing {surveyed : Session Layout} (h : surveyed.tree.Formed) :
    Relation.ReflTransGen Narrowing (start surveyed) (finished surveyed) := by
  have hany : ∀ node, (start surveyed).defs.kindsOf node ≠ ∅ := fun _ => by
    change Kinds.any ≠ ∅
    decide
  exact (narrowing_of_runs (((finished_operated surveyed).runs h).narrowing h) hany).1

end Evaluation

/-! ## Operations and analyses -/

/-- Whatever operations are applied to an empty tree, and by whatever definitions, less and less
is possible for each name, from one step to the next and altogether, a need for an unboxed value
does not go away, something is possible for each name without a mask in front of it, and something
is left of each mask.  An analysis is such a run, and in it less and less is possible for each
node, but never nothing. -/
theorem Analysis.operations_narrow :
    (∀ (σ : Type) (own : σ → σ → Prop) (start before after : Session σ), start.tree = ∅ →
      start.Operated own before → before.Operated own after →
        before.tree.Viable ∧ before.tree.Narrows after.tree ∧
          Relation.ReflTransGen (Session.Narrowing own) before after) ∧
    ∀ (unit : Expr) (file : String) (options : Options),
      let surveyed := Survey.ofUnit unit file options.topLevel
      let finished := Evaluation.finished surveyed
      Relation.ReflTransGen (Session.Narrowing Survey.Changes) ⟨∅, .new file, [], ∅⟩ surveyed ∧
        Relation.ReflTransGen Evaluation.Narrowing (Evaluation.start surveyed) finished ∧
        (analyse unit file options).tree = finished.tree ∧
        (analyse unit file options).progress = finished.defs := by
  refine ⟨fun σ own start before after hempty hbefore hafter => ?_, fun unit file options => ?_⟩
  · have hformed := hbefore.formed hempty
    have hruns := hafter.runs hformed
    exact ⟨hformed.viable, hruns.narrows hformed, hruns.narrowing hformed⟩
  · have hrooted : Session.Operated Survey.Changes ⟨∅, .new file, [], ∅⟩
        (Survey.rooted unit file options.topLevel) := .openRoot _ unit.span options.topLevel
    have hlaid := Survey.lays_ofUnit unit file options.topLevel
    have hsurveyed := (hrooted.trans hlaid.operated).runs ScopeTree.formed_empty
    exact ⟨hsurveyed.narrowing ScopeTree.formed_empty,
      Evaluation.finished_narrowing hlaid.kept.formed, by rw [analyse], by rw [analyse]⟩

/-- A definition that only weighs what is demanded of it. -/
def Analysis.weigher : Definer Unit := fun node demanded unbox =>
  ScopeM.ensureIntrinsic ⟨0⟩ node demanded unbox .nowhere

/-- A scope that binds a name, and another one inside it. -/
def Analysis.nested : Session Unit :=
  let rooted : Session Unit := ⟨(∅ : ScopeTree).openRoot .nowhere true, .new "unit", [], ()⟩
  let bound := rooted.withTree (rooted.tree.define ⟨0⟩ "a" (.bound ⟨0⟩ .any))
  bound.withTree (bound.tree.openInside ⟨0⟩ .nowhere false)

/-- A masked name is looked up, and a demand on its source leaves less for both of them. -/
theorem Analysis.operations_narrow_masked :
    let start : Session Unit := ⟨∅, .new "unit", [], ()⟩
    let before := ((ScopeM.lookup weigher ⟨1⟩ ["a"] .nowhere).run nested).2
    let after := ((ScopeM.ensure weigher ⟨0⟩ {.int} true).run before).2
    (before.tree.possible ⟨1⟩ = .any ∧ after.tree.possible ⟨1⟩ = {.int}) ∧
      start.tree = ∅ ∧ start.Operated (fun _ _ => False) before ∧
        before.Operated (fun _ _ => False) after ∧
          before.tree.Viable ∧ before.tree.Narrows after.tree ∧
            Relation.ReflTransGen (Session.Narrowing fun _ _ => False) before after := by
  have hweigher : ∀ node demanded unbox (later : Session Unit),
      later.Operated (fun _ _ => False) ((weigher node demanded unbox).run later).2 :=
    fun node demanded unbox later => .ensureIntrinsic later ⟨0⟩ node demanded unbox .nowhere
  have hnested : Session.Operated (fun _ _ => False) ⟨∅, .new "unit", [], ()⟩ nested :=
    have hrooted := Session.Operated.openRoot ⟨∅, .new "unit", [], ()⟩ .nowhere true
    have hbound := hrooted.trans (@Session.Operated.bind Unit _ _ ⟨0⟩ "a" ⟨0⟩ _ rfl)
    hbound.trans (.openInside _ (by decide) .nowhere false)
  have hbefore := hnested.trans (.lookup nested weigher
    (fun node demanded unbox later _ _ => hweigher node demanded unbox later) ⟨1⟩ ["a"] .nowhere)
  have hafter := fun before : Session Unit => Session.Operated.ensure before weigher
    (fun node demanded unbox later _ _ => hweigher node demanded unbox later) ⟨0⟩ {.int} true
  refine ⟨by decide +kernel, rfl, hbefore, hafter _, ?_⟩
  exact Analysis.operations_narrow.1 Unit _ _ _ _ rfl hbefore (hafter _)

end FrameLang
