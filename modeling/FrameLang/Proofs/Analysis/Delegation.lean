import FrameLang.Proofs.Analysis.Narrowing
import FrameLang.Proofs.Scope.Delegation

/-!
# Delegated names in an analysis

The names that a delegating scope inherits are transparent
(`Analysis.delegated_transparent`).  In whatever state operations have left a tree, a
delegated name has the kinds of its source and is needed unboxed if its source is.  And a
demand on it could as well be made on the source: the same is proven, the same is
reported, and afterwards nobody can tell the difference by asking what is possible for
names and which of them are needed unboxed.

The definitions behind the names take part in this, since a demand may end at one of
them.  They have to be blind to what nobody can tell, and evaluation is
(`Evaluation.evaluate_blind`).
-/

namespace FrameLang

namespace Evaluation

open ScopeM
open Session (Akin)

variable {first second : Session Progress}

theorem leaf_coupled (span : Span) (natural demanded : Kinds) (h : first.Akin second) :
    Coupled Akin ((leaf span natural demanded).run first)
      ((leaf span natural demanded).run second) := by
  rw [run_leaf, run_leaf]
  split
  · exact ⟨rfl, h⟩
  · exact ⟨rfl, h.reporting fun reporter => reporter.expressionConflict span natural demanded⟩

theorem resolve_coupled {during : Definer Progress} (hsound : during.Sound)
    (hblind : during.Blind) (searching : List NodeId) (scope : ScopeId) (mark : Mark)
    (path : List String) (h : first.Akin second) :
    Coupled Akin ((resolve during searching scope mark path).run first)
      ((resolve during searching scope mark path).run second) := by
  rw [run_resolve, run_resolve, h.defs]
  cases first.defs.resolved.find? mark.id with
  | some name => exact ⟨rfl, h⟩
  | none =>
      dsimp only
      split
      · exact ⟨rfl, h⟩
      · have hfound := (couples_akin hblind).lookup hsound scope path mark.span
          (h.noting (.searching mark.id) (.searching mark.id))
        refine ⟨congrArg some hfound.value, ?_⟩
        dsimp only
        rw [hfound.value]
        exact (hfound.related.withDefs (·.resolve mark.id _)).noting _ _

theorem rule_coupled {again during : Definer Progress} (hagain : again.Blind)
    (hsound : during.Sound) (hduring : during.Blind) (searching : List NodeId) (scope : ScopeId)
    (demanded : Kinds) (unbox : Bool) (expr : Expr) (h : first.Akin second) :
    Coupled Akin ((rule again during searching scope demanded unbox expr).run first)
      ((rule again during searching scope demanded unbox expr).run second) := by
  rw [run_rule, run_rule]
  cases expr.way with
  | leaf natural => exact leaf_coupled expr.span natural demanded h
  | lookup path =>
      have hfound := resolve_coupled hsound hduring searching scope expr.mark path h
      dsimp only
      rw [hfound.value]
      cases ((resolve during searching scope expr.mark path).run first).1 with
      | some name => exact ensure_coupled hagain name demanded unbox hfound.related
      | none => exact ⟨rfl, hfound.related⟩
  | coalesce primary fallback =>
      have hfallback := hagain fallback demanded unbox _ _ h
      have hprimary := hagain primary (demanded ∪ {.unit}) unbox _ _ hfallback.related
      refine ⟨?_, hprimary.related⟩
      dsimp only
      rw [hprimary.value, hfallback.value]
  | choose consequent alternative =>
      have hconsequent := hagain consequent demanded unbox _ _ h
      have halternative := hagain alternative demanded unbox _ _ hconsequent.related
      refine ⟨?_, halternative.related⟩
      dsimp only
      rw [halternative.value, hconsequent.value]
  | arithmetic left right =>
      have hleft := hagain left .number true _ _ h
      have hright := hagain right .number true _ _ hleft.related
      dsimp only
      rw [hright.value, hleft.value]
      generalize arithmeticKinds _ _ = natural
      have hnatural := ensureIntrinsic_coupled scope expr.id natural true expr.span hright.related
      exact ensureIntrinsic_coupled scope expr.id demanded unbox expr.span hnatural.related
  | enforce value kinds =>
      exact leaf_coupled expr.span kinds demanded (hagain value kinds true _ _ h).related
  | body node => exact hagain node demanded unbox _ _ h

/-- Evaluation does not look at what nobody can tell. -/
theorem evaluate_blind (layout : Layout) (depth : Nat) (active searching : List NodeId) :
    (evaluate layout depth active searching).Blind := by
  induction depth generalizing active searching with
  | zero => exact fun _ _ _ _ _ h => ⟨rfl, h⟩
  | succ depth ih =>
      intro id demanded unbox first second h
      rw [run_evaluate_succ, run_evaluate_succ]
      cases layout.nodes.find? id with
      | none => exact ⟨rfl, h⟩
      | some placement =>
          dsimp only
          split
          · exact ⟨congrArg (Progress.kindsOf · id) h.defs, h.noting _ _⟩
          · have hruled := rule_coupled (ih (id :: active) searching)
              (evaluate_sound layout depth (id :: active) (id :: searching))
              (ih (id :: active) (id :: searching)) searching placement.scope demanded unbox
              placement.expr (h.noting (.entered id demanded) (.entered id demanded))
            refine ⟨hruled.value, ?_⟩
            rw [hruled.value]
            exact (hruled.related.withDefs (·.prove id _)).noting _ _

end Evaluation

/-- Whatever operations are applied to an empty tree, and by whatever definitions, a name that
hands its demands on to another one, at once or by way of others, has the same kinds and is needed
unboxed in the same cases.  The same demand made on either of them proves the same and reports the
same, and leaves the same possible for all names and the same of them needed unboxed.  What is
demanded of definitions on the way has to be answered by a blind definer, and evaluation is one. -/
theorem Analysis.delegated_transparent :
    (∀ (σ : Type) (own : σ → σ → Prop) (start session : Session σ), start.tree = ∅ →
      start.Operated own session → ∀ copy source,
        Relation.TransGen session.tree.Delegates copy source →
          (session.tree.possible copy = session.tree.possible source ∧
            session.tree.mustUnbox copy = session.tree.mustUnbox source) ∧
          ∀ definer : Definer σ, definer.Blind → ∀ (demanded : Kinds) (unbox : Bool),
            let here := (ScopeM.ensure definer copy demanded unbox).run session
            let there := (ScopeM.ensure definer source demanded unbox).run session
            here.1 = there.1 ∧ here.2.reporter = there.2.reporter ∧
              ∀ id, here.2.tree.possible id = there.2.tree.possible id ∧
                here.2.tree.mustUnbox id = there.2.tree.mustUnbox id) ∧
    ∀ (layout : Layout) (depth : Nat) (active searching : List NodeId),
      (Evaluation.evaluate layout depth active searching).Blind := by
  refine ⟨fun σ own start session hempty hoperated copy source hchain => ?_,
    Evaluation.evaluate_blind⟩
  have hformed := hoperated.formed hempty
  have hshared := hoperated.shared (hempty ▸ ScopeTree.formed_empty)
    (hempty ▸ ScopeTree.shared_empty)
  refine ⟨hshared.agree hformed hchain, fun definer hblind demanded unbox => ?_⟩
  obtain ⟨hsame, hakin⟩ := ScopeM.ensure_chained hblind hformed hchain demanded unbox
  exact ⟨hsame.symm, hakin.reporter.symm, fun id => ⟨(hakin.tree.possible id).symm,
    (hakin.tree.mustUnbox_eq hakin.formed id).symm⟩⟩

/-- A scope that binds a name, and two scopes that delegate, one inside the other. -/
def Analysis.delegating : Session Unit :=
  let rooted : Session Unit := ⟨(∅ : ScopeTree).openRoot .nowhere true, .new "unit", [], ()⟩
  let bound := rooted.withTree (rooted.tree.define ⟨0⟩ "a" (.bound ⟨0⟩ .any))
  let inner := bound.withTree (bound.tree.openInside ⟨0⟩ .nowhere true)
  inner.withTree (inner.tree.openInside ⟨1⟩ .nowhere true)

/-- The name is looked up from the innermost scope, and a demand on what is found there comes to
its definition. -/
theorem Analysis.delegated_transparent_bound :
    let start : Session Unit := ⟨∅, .new "unit", [], ()⟩
    let session := ((ScopeM.lookup weigher ⟨2⟩ ["a"] .nowhere).run delegating).2
    let here := (ScopeM.ensure weigher ⟨2⟩ {.int} true).run session
    let there := (ScopeM.ensure weigher ⟨0⟩ {.int} true).run session
    (here.1 = {.int} ∧ here.2.tree.mustUnbox ⟨1⟩ = true) ∧
      start.tree = ∅ ∧ start.Operated (fun _ _ => False) session ∧
        Relation.TransGen session.tree.Delegates ⟨2⟩ ⟨0⟩ ∧ weigher.Blind ∧
          session.tree.mustUnbox ⟨2⟩ = session.tree.mustUnbox ⟨0⟩ ∧ here.1 = there.1 ∧
            here.2.tree.mustUnbox ⟨1⟩ = there.2.tree.mustUnbox ⟨1⟩ := by
  have hblind : weigher.Blind := fun node demanded unbox _ _ h =>
    ScopeM.ensureIntrinsic_coupled ⟨0⟩ node demanded unbox .nowhere h
  have hdelegating : Session.Operated (fun _ _ => False) ⟨∅, .new "unit", [], ()⟩ delegating :=
    have hrooted := Session.Operated.openRoot ⟨∅, .new "unit", [], ()⟩ .nowhere true
    have hbound := hrooted.trans (@Session.Operated.bind Unit _ _ ⟨0⟩ "a" ⟨0⟩ _ rfl)
    have hinner := hbound.trans (.openInside _ (by decide) .nowhere true)
    hinner.trans (.openInside _ (by decide) .nowhere true)
  have hsession := hdelegating.trans (.lookup delegating weigher
    (fun node demanded unbox later _ _ => .ensureIntrinsic later ⟨0⟩ node demanded unbox .nowhere)
    ⟨2⟩ ["a"] .nowhere)
  have hchain : Relation.TransGen
      ((ScopeM.lookup weigher ⟨2⟩ ["a"] .nowhere).run delegating).2.tree.Delegates ⟨2⟩ ⟨0⟩ :=
    .tail (.single (by unfold ScopeTree.Delegates; decide +kernel : ScopeTree.Delegates _ ⟨2⟩ ⟨1⟩))
      (by unfold ScopeTree.Delegates; decide +kernel)
  obtain ⟨hagree, hdemands⟩ :=
    Analysis.delegated_transparent.1 Unit _ _ _ rfl hsession _ _ hchain
  obtain ⟨hsame, -, hleft⟩ := hdemands weigher hblind {.int} true
  exact ⟨by decide +kernel, rfl, hsession, hchain, hblind, hagree.2, hsame, (hleft ⟨1⟩).2⟩

end FrameLang
