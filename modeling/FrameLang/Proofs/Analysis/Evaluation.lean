import FrameLang.Analysis
import FrameLang.Proofs.Scope.Lookups

/-!
# How a session evolves in an evaluation

What evaluation knows of a node is narrowed, but never to nothing, and a lookup
that means a name goes on meaning one.  So a session evolves in the evaluation of
a node, whatever happens to be under evaluation already
(`Evaluation.evaluate_sound`).

## Strategy

Most constructs are evaluated alike: there are only seven ways to go about it
(`Way`), and every proof about evaluation is a case split over them.  The
induction is on the depth, which the equation of `evaluate` hands to the nodes
inside a node and to the definitions behind a lookup.
-/

namespace FrameLang

/-! ## The order of knowledge -/

namespace Progress

/-- More has been found out. -/
structure Grows (before after : Progress) : Prop where
  resolved : ∀ node, (before.resolved.find? node).isSome → (after.resolved.find? node).isSome
  kinds : ∀ node, (before.kindsOf node).Narrows (after.kindsOf node)

instance : Preorder Progress where
  le := Grows
  le_refl progress := ⟨fun _ h => h, fun _ => .refl _⟩
  le_trans first second third h h' :=
    ⟨fun node hnode => h'.resolved node (h.resolved node hnode),
      fun node => (h.kinds node).trans (h'.kinds node)⟩

theorem kindsOf_prove (progress : Progress) (node other : NodeId) (kinds : Kinds) :
    (progress.prove node kinds).kindsOf other =
      if node = other then (progress.kindsOf node).narrow kinds else progress.kindsOf other := by
  unfold kindsOf prove
  rw [Table.find?_insert]
  split <;> rfl

theorem le_prove (progress : Progress) (node : NodeId) (kinds : Kinds) :
    progress ≤ progress.prove node kinds := by
  refine ⟨fun _ h => h, fun other => ?_⟩
  rw [kindsOf_prove]
  split
  · next heq => exact heq ▸ Kinds.narrows_narrow _ _
  · exact .refl _

theorem find?_resolve (progress : Progress) (node other : NodeId) (name : NameId) :
    (progress.resolve node name).resolved.find? other =
      if node = other then some name else progress.resolved.find? other :=
  Table.find?_insert ..

theorem le_resolve (progress : Progress) (node : NodeId) (name : NameId) :
    progress ≤ progress.resolve node name := by
  refine ⟨fun other h => ?_, fun _ => .refl _⟩
  rw [find?_resolve]
  split
  · rfl
  · exact h

end Progress

/-! ## The ways of evaluation -/

/-- How an expression is evaluated. -/
inductive Way where
  /-- Its kinds do not depend on anything. -/
  | leaf (kinds : Kinds)
  | lookup (path : List String)
  | coalesce (primary fallback : NodeId)
  | choose (consequent alternative : NodeId)
  | arithmetic (left right : NodeId)
  | enforce (value : NodeId) (kinds : Kinds)
  /-- As another node is. -/
  | body (node : NodeId)

/-- How an expression is evaluated. -/
def Expr.way : Expr → Way
  | literal _ value => .leaf {value.kind}
  | frame _ _ | instantiate _ _ _ => .leaf {.frame}
  | template _ _ => .leaf {.template}
  | lookup _ path => .lookup path
  | coalesce _ primary fallback => .coalesce primary.id fallback.id
  | conditional _ _ consequent alternative => .choose consequent.id alternative.id
  | arithmetic _ _ left right => .arithmetic left.id right.id
  | enforce _ value kinds => .enforce value.id kinds
  | letIn _ _ body | hide _ _ body => .body body.id

/-- The nodes that are evaluated along with a node. -/
def Way.heirs : Way → List NodeId
  | leaf _ | lookup _ => []
  | coalesce primary fallback => [fallback, primary]
  | choose consequent alternative => [consequent, alternative]
  | arithmetic left right => [left, right]
  | enforce value _ => [value]
  | body node => [node]

namespace Evaluation

open ScopeM

/-! ## Runs -/

theorem run_leaf (span : Span) (natural demanded : Kinds) (session : Session Progress) :
    (leaf span natural demanded).run session =
      if natural.meets demanded = true then (natural ∩ demanded, session)
      else (natural, session.reporting
        (session.reporter.expressionConflict span natural demanded)) := by
  unfold leaf
  split <;> rfl

/-- The session once a lookup has been found to mean a name. -/
def resolving (session : Session Progress) (node : NodeId) (name : NameId) : Session Progress :=
  (session.withDefs (session.defs.resolve node name)).noting (.resolved node name)

theorem run_resolve (during : Definer Progress) (searching : List NodeId) (scope : ScopeId)
    (mark : Mark) (path : List String) (session : Session Progress) :
    (resolve during searching scope mark path).run session =
      match session.defs.resolved.find? mark.id with
      | some name => (some name, session)
      | none =>
          if mark.id ∈ searching then (none, session)
          else
            let found := (lookup during scope path mark.span).run
              (session.noting (.searching mark.id))
            (some found.1, resolving found.2 mark.id found.1) := by
  unfold resolve
  rw [run_bind, run_defs]
  dsimp only
  cases session.defs.resolved.find? mark.id with
  | some name => rfl
  | none =>
      dsimp only
      split <;> rfl

theorem run_rule (again during : Definer Progress) (searching : List NodeId) (scope : ScopeId)
    (demanded : Kinds) (unbox : Bool) (expr : Expr) (session : Session Progress) :
    (rule again during searching scope demanded unbox expr).run session =
      match expr.way with
      | .leaf natural => (leaf expr.span natural demanded).run session
      | .lookup path =>
          let found := (resolve during searching scope expr.mark path).run session
          match found.1 with
          | some name => (ensure again name demanded unbox).run found.2
          | none => (demanded, found.2)
      | .coalesce primary fallback =>
          let fallback := (again fallback demanded unbox).run session
          let primary := (again primary (demanded ∪ {.unit}) unbox).run fallback.2
          (coalesced primary.1 fallback.1 demanded, primary.2)
      | .choose consequent alternative =>
          let consequent := (again consequent demanded unbox).run session
          let alternative := (again alternative demanded unbox).run consequent.2
          ((consequent.1 ∪ alternative.1).narrow demanded, alternative.2)
      | .arithmetic left right =>
          let left := (again left .number true).run session
          let right := (again right .number true).run left.2
          let natural := (ensureIntrinsic scope expr.id (arithmeticKinds left.1 right.1) true
            expr.span).run right.2
          (ensureIntrinsic scope expr.id demanded unbox expr.span).run natural.2
      | .enforce value kinds =>
          let value := (again value kinds true).run session
          (leaf expr.span kinds demanded).run value.2
      | .body node => (again node demanded unbox).run session := by
  cases expr with
  | lookup mark path =>
      rw [rule, run_bind]
      dsimp only [Expr.way, Expr.mark]
      cases ((resolve during searching scope mark path).run session).1 <;> rfl
  | _ => rfl

/-- The session once the evaluation of a node has come to its end. -/
def leaving (session : Session Progress) (node : NodeId) (proven : Kinds) : Session Progress :=
  (session.withDefs (session.defs.prove node proven)).noting (.left node proven)

theorem run_evaluate_succ (layout : Layout) (depth : Nat) (active searching : List NodeId)
    (id : NodeId) (demanded : Kinds) (unbox : Bool) (session : Session Progress) :
    (evaluate layout (depth + 1) active searching id demanded unbox).run session =
      match layout.nodes.find? id with
      | none => (demanded, session)
      | some placement =>
          if id ∈ active then (session.defs.kindsOf id, session.noting (.reentered id))
          else
            let proven := (rule (evaluate layout depth (id :: active) searching)
              (evaluate layout depth (id :: active) (id :: searching)) searching placement.scope
              demanded unbox placement.expr).run (session.noting (.entered id demanded))
            (proven.1, leaving proven.2 id proven.1) := by
  rw [evaluate]
  dsimp only
  cases layout.nodes.find? id with
  | none => rfl
  | some placement =>
      dsimp only
      split <;> rfl

theorem run_classify (layout : Layout) (id : NodeId) (session : Session Progress) :
    ((classify layout id).run session).2 =
      match layout.nodes.find? id with
      | none => session
      | some placement =>
          match placement.expr.way with
          | .lookup path =>
              ((resolve (evaluate layout (depthOf layout) [] [id]) [] placement.scope
                placement.expr.mark path).run session).2
          | _ => session := by
  unfold classify
  cases layout.nodes.find? id with
  | none => rfl
  | some placement =>
      obtain ⟨expr, scope⟩ := placement
      cases expr <;> rfl

/-- To compare a mask with its source is at most to report something. -/
theorem checkMask_reports (id : NameId) (session : Session Progress) :
    ∃ reporter, ((checkMask id).run session).2 = session.reporting reporter := by
  unfold checkMask
  rw [run_bind, run_tree]
  dsimp only
  split
  · split
    · exact ⟨session.reporter, rfl⟩
    · exact ⟨_, rfl⟩
  · exact ⟨session.reporter, rfl⟩

theorem checkMasks_reports (session : Session Progress) :
    ∃ reporter, (checkMasks.run session).2 = session.reporting reporter := by
  refine forM_preserves (fun after => ∃ reporter, after = session.reporting reporter)
    session.tree.nameIds (fun id _ after hafter => ?_) ⟨session.reporter, rfl⟩
  obtain ⟨reporter, rfl⟩ := hafter
  obtain ⟨reporter', hchecked⟩ := checkMask_reports id (session.reporting reporter)
  exact ⟨reporter', hchecked⟩

theorem scoping_checkMasks (session : Session Progress) :
    (checkMasks.run session).2.reporter.scoping = session.reporter.scoping := by
  refine forM_preserves (fun after => after.reporter.scoping = session.reporter.scoping)
    session.tree.nameIds (fun id _ after hafter => ?_) rfl
  unfold checkMask
  rw [run_bind, run_tree]
  dsimp only
  split
  · split
    · exact hafter
    · exact (Reporter.scoping_maskConflict ..).trans hafter
  · exact hafter

/-! ## Soundness -/

theorem leaf_evolves (span : Span) (natural demanded : Kinds) {session : Session Progress}
    (h : session.tree.Formed) : session.Evolves ((leaf span natural demanded).run session).2 := by
  rw [run_leaf]
  split
  · exact .refl h
  · exact .reporting h (Reporter.grows_push ..)

theorem resolving_evolves {session : Session Progress} (h : session.tree.Formed) (node : NodeId)
    (name : NameId) : session.Evolves (resolving session node name) :=
  have hdefs := Session.Evolves.defs h (session.defs.le_resolve node name)
  hdefs.trans (.noting hdefs.formed _)

theorem leaving_evolves {session : Session Progress} (h : session.tree.Formed) (node : NodeId)
    (proven : Kinds) : session.Evolves (leaving session node proven) :=
  have hdefs := Session.Evolves.defs h (session.defs.le_prove node proven)
  hdefs.trans (.noting hdefs.formed _)

theorem resolve_evolves {during : Definer Progress} (hduring : during.Sound)
    (searching : List NodeId) (scope : ScopeId) (mark : Mark) (path : List String)
    {session : Session Progress} (h : session.tree.Formed) :
    session.Evolves ((resolve during searching scope mark path).run session).2 := by
  rw [run_resolve]
  cases session.defs.resolved.find? mark.id with
  | some name => exact .refl h
  | none =>
      dsimp only
      split
      · exact .refl h
      · have hnoted := Session.Evolves.noting h (.searching mark.id)
        have hfound := hnoted.trans
          (lookedUp_lookup hduring scope path mark.span hnoted.formed).evolves
        exact hfound.trans (resolving_evolves hfound.formed ..)

theorem rule_evolves {again during : Definer Progress} (hagain : again.Sound)
    (hduring : during.Sound) (searching : List NodeId) (scope : ScopeId) (demanded : Kinds)
    (unbox : Bool) (expr : Expr) {session : Session Progress} (h : session.tree.Formed) :
    session.Evolves
      ((rule again during searching scope demanded unbox expr).run session).2 := by
  rw [run_rule]
  cases expr.way with
  | leaf natural =>
      dsimp only
      exact leaf_evolves expr.span natural demanded h
  | lookup path =>
      have hfound := resolve_evolves hduring searching scope expr.mark path h
      dsimp only
      cases ((resolve during searching scope expr.mark path).run session).1 with
      | some name => exact hfound.trans (ensure_evolves hagain name demanded unbox hfound.formed)
      | none => exact hfound
  | coalesce primary fallback =>
      dsimp only
      have hfallback := hagain fallback demanded unbox session h
      have hprimary := hagain primary (demanded ∪ {.unit}) unbox _ hfallback.formed
      exact hfallback.trans hprimary
  | choose consequent alternative =>
      dsimp only
      have hconsequent := hagain consequent demanded unbox session h
      exact hconsequent.trans (hagain alternative demanded unbox _ hconsequent.formed)
  | arithmetic left right =>
      dsimp only
      have hleft := hagain left .number true session h
      have hright := hleft.trans (hagain right .number true _ hleft.formed)
      generalize arithmeticKinds _ _ = natural
      have hnatural := hright.trans
        (ensureIntrinsic_evolves scope expr.id natural true expr.span hright.formed)
      exact hnatural.trans
        (ensureIntrinsic_evolves scope expr.id demanded unbox expr.span hnatural.formed)
  | enforce value kinds =>
      dsimp only
      have hvalue := hagain value kinds true session h
      exact hvalue.trans (leaf_evolves expr.span kinds demanded hvalue.formed)
  | body node =>
      dsimp only
      exact hagain node demanded unbox session h

theorem evaluate_sound (layout : Layout) (depth : Nat) (active searching : List NodeId) :
    (evaluate layout depth active searching).Sound := by
  induction depth generalizing active searching with
  | zero => exact fun _ _ _ _ h => .refl h
  | succ depth ih =>
      intro id demanded unbox session h
      rw [run_evaluate_succ]
      cases layout.nodes.find? id with
      | none => exact .refl h
      | some placement =>
          dsimp only
          split
          · exact .noting h _
          · have hentered := Session.Evolves.noting h (.entered id demanded)
            have hproven := hentered.trans (rule_evolves (ih (id :: active) searching)
              (ih (id :: active) (id :: searching)) searching placement.scope demanded unbox
              placement.expr hentered.formed)
            exact hproven.trans (leaving_evolves hproven.formed ..)

end Evaluation

end FrameLang
