import FrameLang.Proofs.Analysis.Nesting
import FrameLang.Proofs.Analysis.Weighing

/-!
# What lookups mean in the course of an evaluation

A lookup means a name that there is (`Evaluation.Grounded`), and once it means a name it
goes on meaning this one: a lookup is searched only if it means nothing yet, and it means
nothing as long as it is searched.  So a session that an evaluation comes back with is a
later state of the one it was given, in every respect that matters to evaluations
(`Evaluation.Precedes`).

## Strategy

What an evaluation may rely on, given the nodes under evaluation and the lookups being
searched, is put together in `Evaluation.Standing`.  Each part of it is kept by every
evaluation for a reason of its own; later files use the whole, by `evaluate_standing` and
`resolve_standing`.
-/

namespace FrameLang

namespace Evaluation

open ScopeM

/-- The names are well formed, and what lookups mean are some of them. -/
structure Grounded (session : Session Progress) : Prop where
  formed : session.tree.Formed
  known : ∀ node name, session.defs.resolved.find? node = some name →
    name.index < session.tree.names.size

/-- What an evaluation may rely on, and has to leave behind. -/
structure Standing (layout : Layout) (active searching : List NodeId) (session : Session Progress) :
    Prop extends Grounded session where
  nested : Nested active searching session
  balanced : Balanced layout session
  counts : session.reporter.Counts

/-- A session evolves, and lookups go on meaning what they mean. -/
structure Precedes (before after : Session Progress) : Prop where
  evolves : before.Evolves after
  resolved : ∀ node name, before.defs.resolved.find? node = some name →
    after.defs.resolved.find? node = some name

section Steps

variable {layout : Layout} {active searching : List NodeId}
  {session before after third : Session Progress}

theorem Precedes.trans (h : Precedes before after) (h' : Precedes after third) :
    Precedes before third :=
  ⟨h.evolves.trans h'.evolves, fun node name hname => h'.resolved _ _ (h.resolved node name hname)⟩

theorem Precedes.of_eq (h : before.Evolves after)
    (hresolved : after.defs.resolved = before.defs.resolved) : Precedes before after :=
  ⟨h, fun node name hname => by rw [hresolved, hname]⟩

theorem Precedes.refl (h : session.tree.Formed) : Precedes session session :=
  .of_eq (.refl h) rfl

theorem Precedes.making (h : before.Making after) (hformed : before.tree.Formed) :
    Precedes before after :=
  .of_eq (h.evolves hformed) (by rw [h.defs])

theorem Precedes.noting (h : session.tree.Formed) (event : Event) :
    Precedes session (session.noting event) :=
  .of_eq (.noting h event) rfl

theorem Precedes.demanding (h : session.tree.Formed) (id : NameId) (demanded : Kinds)
    (unbox : Bool) : Precedes session (session.demanding id demanded unbox) :=
  .of_eq (.demanding h id demanded unbox) rfl

theorem Precedes.proving (h : session.tree.Formed) (id : NameId) (proven : Kinds) :
    Precedes session (session.proving id proven) :=
  .of_eq (.proving h id proven) rfl

theorem Precedes.leaving (h : session.tree.Formed) (node : NodeId) (proven : Kinds) :
    Precedes session (leaving session node proven) :=
  .of_eq (leaving_evolves h node proven) rfl

/-- A lookup that has meant nothing comes to mean a name. -/
theorem Precedes.resolving (h : session.tree.Formed) {node : NodeId}
    (hnone : session.defs.resolved.find? node = none) (name : NameId) :
    Precedes session (resolving session node name) := by
  refine ⟨resolving_evolves h node name, fun other meant hmeant => ?_⟩
  refine (Progress.find?_resolve ..).trans (if_neg ?_ |>.trans hmeant)
  rintro rfl
  cases hnone.symm.trans hmeant

/-- As long as no meanings are found, lookups mean names that there are. -/
theorem Grounded.evolves (h : Grounded before) (hevolves : before.Evolves after)
    (hresolved : after.defs.resolved = before.defs.resolved) : Grounded after := by
  refine ⟨hevolves.formed, fun node name hname => ?_⟩
  rw [hresolved] at hname
  exact Nat.lt_of_lt_of_le (h.known node name hname) hevolves.grows.size_names

theorem Grounded.making (h : Grounded before) (hmaking : before.Making after) : Grounded after :=
  h.evolves (hmaking.evolves h.formed) (by rw [hmaking.defs])

theorem Grounded.demanding (h : Grounded session) (id : NameId) (demanded : Kinds)
    (unbox : Bool) : Grounded (session.demanding id demanded unbox) :=
  h.evolves (.demanding h.formed id demanded unbox) rfl

theorem Grounded.resolving (h : Grounded session) (node : NodeId) {name : NameId}
    (hname : name.index < session.tree.names.size) : Grounded (resolving session node name) := by
  refine ⟨h.formed, fun other meant hmeant => ?_⟩
  have hfind : (session.defs.resolve node name).resolved.find? other = some meant := hmeant
  rw [Progress.find?_resolve] at hfind
  split at hfind
  · obtain rfl := Option.some.inj hfind
    exact hname
  · exact h.known other meant hfind

theorem Standing.noting (h : Standing layout active searching session) {event : Event}
    (hevent : event.Nominal) : Standing layout active searching (session.noting event) where
  toGrounded := h.toGrounded.evolves (.noting h.formed event) rfl
  nested := noting_maintains (nested_indifferent active searching) h.nested event hevent
  balanced := h.balanced.noting event
  counts := h.counts

theorem Standing.demanding (h : Standing layout active searching session) (id : NameId)
    (demanded : Kinds) (unbox : Bool) :
    Standing layout active searching (session.demanding id demanded unbox) where
  toGrounded := h.toGrounded.demanding id demanded unbox
  nested := modifyName_maintains (nested_indifferent active searching) h.nested id _
  balanced := modifyName_maintains (balanced_indifferent layout) h.balanced id _
  counts := h.counts

/-- A session stands when a name is about to ask its definition. -/
theorem Standing.defining (h : Standing layout active searching session) (id : NameId)
    (node : NodeId) (demanded : Kinds) (unbox : Bool) :
    Standing layout active searching
      ((session.demanding id demanded unbox).noting (.defining node demanded unbox)) :=
  (h.demanding id demanded unbox).noting trivial

theorem Standing.entering (h : Standing layout active searching session) {id : NodeId}
    (hid : id ∉ active) (demanded : Kinds) :
    Standing layout (id :: active) searching (session.noting (.entered id demanded)) where
  toGrounded := h.toGrounded.evolves (.noting h.formed _) rfl
  nested := h.nested.entering hid demanded
  balanced := h.balanced.noting _
  counts := h.counts

theorem Standing.beginning (h : Standing layout active searching session) {id : NodeId}
    (hid : id ∉ searching) (hnone : session.defs.resolved.find? id = none) :
    Standing layout active (id :: searching) (session.noting (.searching id)) where
  toGrounded := h.toGrounded.evolves (.noting h.formed _) rfl
  nested := h.nested.beginning hid hnone
  balanced := h.balanced.noting _
  counts := h.counts

theorem Standing.making (h : Standing layout active searching before)
    (hmaking : before.Making after) : Standing layout active searching after where
  toGrounded := h.toGrounded.making hmaking
  nested := making_maintains (nested_indifferent active searching) h.nested hmaking
  balanced := making_maintains (balanced_indifferent layout) h.balanced hmaking
  counts := (hmaking.evolves h.formed).reporter.counts h.counts

end Steps

/-! ## What rules keep -/

/-- A rule keeps whatever is kept by its steps: complaints, demands on the result of an arithmetic
operation, evaluations of the nodes inside it, and lookups together with the demands on what they
mean. -/
theorem rule_preserves {property : Session Progress → Prop} {again during : Definer Progress}
    {searching : List NodeId} {scope : ScopeId} {expr : Expr}
    (hreporting : ∀ session error, property session →
      property (session.reporting (session.reporter.push error)))
    (hweighing : ∀ session demanded unbox, property session →
      property ((ensureIntrinsic scope expr.id demanded unbox expr.span).run session).2)
    (hagain : again.Maintains property)
    (hlookup : ∀ path session, property session →
      let found := (resolve during searching scope expr.mark path).run session
      property found.2 ∧ ∀ name, found.1 = some name → ∀ demanded unbox,
        property ((ensure again name demanded unbox).run found.2).2)
    (demanded : Kinds) (unbox : Bool) {session : Session Progress} (h : property session) :
    property ((rule again during searching scope demanded unbox expr).run session).2 := by
  have hleaf : ∀ session natural demanded, property session →
      property ((leaf expr.span natural demanded).run session).2 := by
    intro session natural demanded h
    rw [run_leaf]
    split
    · exact h
    · exact hreporting session _ h
  rw [run_rule]
  cases expr.way with
  | leaf natural => exact hleaf session natural demanded h
  | lookup path =>
      obtain ⟨hfound, hensured⟩ := hlookup path session h
      dsimp only
      cases hname : ((resolve during searching scope expr.mark path).run session).1 with
      | some name => exact hensured name hname demanded unbox
      | none => exact hfound
  | coalesce primary fallback => exact hagain primary _ _ _ (hagain fallback _ _ _ h)
  | choose consequent alternative => exact hagain alternative _ _ _ (hagain consequent _ _ _ h)
  | arithmetic left right =>
      have hoperands := hagain right .number true _ (hagain left .number true _ h)
      exact hweighing _ _ _ (hweighing _ _ _ hoperands)
  | enforce value kinds => exact hleaf _ _ _ (hagain value kinds true _ h)
  | body node => exact hagain node demanded unbox session h

theorem names_ensureIntrinsic (scope : ScopeId) (node : NodeId) (demanded : Kinds) (unbox : Bool)
    (span : Span) (session : Session Progress) :
    ((ensureIntrinsic scope node demanded unbox span).run session).2.tree.names =
      session.tree.names := by
  rw [run_ensureIntrinsic]
  dsimp only
  split <;> rfl

theorem defs_ensureIntrinsic (scope : ScopeId) (node : NodeId) (demanded : Kinds) (unbox : Bool)
    (span : Span) (session : Session Progress) :
    ((ensureIntrinsic scope node demanded unbox span).run session).2.defs = session.defs := by
  rw [run_ensureIntrinsic]
  dsimp only
  split <;> rfl

theorem Precedes.ensureIntrinsic {session : Session Progress} (h : session.tree.Formed)
    (scope : ScopeId) (node : NodeId) (demanded : Kinds) (unbox : Bool) (span : Span) :
    Precedes session ((ScopeM.ensureIntrinsic scope node demanded unbox span).run session).2 :=
  .of_eq (ensureIntrinsic_evolves scope node demanded unbox span h) (by rw [defs_ensureIntrinsic])

theorem Precedes.weighing {session : Session Progress} (h : session.tree.Formed) (scope : ScopeId)
    (node : NodeId) (natural demanded : Kinds) (unbox : Bool) (span : Span) :
    Precedes session (weighing scope node natural demanded unbox span session).2 := by
  have hfirst := Precedes.ensureIntrinsic h scope node natural true span
  exact hfirst.trans (.ensureIntrinsic hfirst.evolves.formed scope node demanded unbox span)

/-! ## Names that there are -/

section Grounds

variable {layout : Layout} {session : Session Progress}

/-- A lookup comes to mean what it is found to mean, and nothing is found only if its search has
begun before. -/
theorem resolve_meaning (during : Definer Progress) (searching : List NodeId) (scope : ScopeId)
    (mark : Mark) (path : List String) (session : Session Progress) :
    let found := (resolve during searching scope mark path).run session
    (∀ name, found.1 = some name → found.2.defs.resolved.find? mark.id = some name) ∧
      (found.1 = none → mark.id ∈ searching) := by
  rw [run_resolve]
  cases hresolved : session.defs.resolved.find? mark.id with
  | some name => exact ⟨fun other heq => hresolved.trans heq, fun hnone => (by cases hnone)⟩
  | none =>
      dsimp only
      split
      · next hmem => exact ⟨fun _ heq => (by cases heq), fun _ => hmem⟩
      · refine ⟨fun name heq => ?_, fun hnone => (by cases hnone)⟩
        obtain rfl := Option.some.inj heq
        exact (Progress.find?_resolve ..).trans (if_pos rfl)

section Definers

variable {definer : Definer Progress} (hdefiner : definer.Maintains Grounded)
include hdefiner

theorem follow_grounded (id : NameId) (demanded : Kinds) (unbox : Bool) (h : Grounded session) :
    Grounded ((follow definer id demanded unbox).run session).2 := by
  have hfollows := follows_follow definer id demanded unbox h.formed
  generalize (follow definer id demanded unbox).run session = followed at hfollows ⊢
  induction hfollows with
  | settled id _ => exact h.demanding id demanded unbox
  | refused id _ =>
      have hdemanded := h.demanding id demanded unbox
      exact hdemanded.evolves (.reporting hdemanded.formed (Reporter.grows_push ..)) rfl
  | delegated id _ _ _ ih => exact ih (h.demanding id demanded unbox)
  | bound id node _ hdefined =>
      have hdemanded := h.demanding id demanded unbox
      have hnoted := hdemanded.evolves
        (.noting hdemanded.formed (.defining node demanded unbox)) rfl
      have hproven := hdefined ▸ hdefiner node demanded unbox _ hnoted
      exact hproven.evolves (.proving hproven.formed id _) rfl

theorem ensure_grounded (id : NameId) (demanded : Kinds) (unbox : Bool) (h : Grounded session) :
    Grounded ((ensure definer id demanded unbox).run session).2 := by
  have hasked := h.evolves (.noting h.formed (.asked id demanded unbox)) rfl
  have hfollowed := follow_grounded hdefiner id demanded unbox hasked
  rw [run_ensure]
  exact hfollowed.evolves (.noting hfollowed.formed _) rfl

theorem grounded_sustained (hsound : definer.Sound) : Sustains definer Grounded where
  formed _ h := h.formed
  making _ _ h hmaking := h.making hmaking
  ensure session id h _ := by
    have hevolves := ensure_evolves hsound id {.frame} false h.formed
    have hensured := ensure_grounded hdefiner id {.frame} false h
    exact ⟨hensured, hevolves.grows.retains⟩

/-- What a lookup means, if it means anything, is a name that there is. -/
theorem resolve_grounded (hsound : definer.Sound) (searching : List NodeId) (scope : ScopeId) (mark : Mark)
    (path : List String) (h : Grounded session) :
    Grounded ((resolve definer searching scope mark path).run session).2 := by
  rw [run_resolve]
  cases session.defs.resolved.find? mark.id with
  | some name => exact h
  | none =>
      dsimp only
      split
      · exact h
      · have hnoted := h.evolves (.noting h.formed (.searching mark.id)) rfl
        have hfound := (grounded_sustained hdefiner hsound).lookup scope path mark.span hnoted
        exact hfound.reached.resolving mark.id hfound.lt_size

end Definers

theorem rule_grounded {again during : Definer Progress} (hagain : again.Maintains Grounded)
    (hsound : during.Sound) (hduring : during.Maintains Grounded) (searching : List NodeId) (scope : ScopeId)
    (demanded : Kinds) (unbox : Bool) (expr : Expr) (h : Grounded session) :
    Grounded ((rule again during searching scope demanded unbox expr).run session).2 := by
  refine rule_preserves (fun session error h => ?_) (fun session demanded unbox h => ?_) hagain
    (fun path session h => ?_) demanded unbox h
  · exact h.evolves (.reporting h.formed (Reporter.grows_push ..)) rfl
  · have hweighed := ensureIntrinsic_evolves scope expr.id demanded unbox expr.span h.formed
    exact h.evolves hweighed (by rw [defs_ensureIntrinsic])
  · have hfound := resolve_grounded hduring hsound searching scope expr.mark path h
    exact ⟨hfound, fun name _ demanded unbox => ensure_grounded hagain name demanded unbox hfound⟩

theorem evaluate_grounded (layout : Layout) (depth : Nat) (active searching : List NodeId) :
    (evaluate layout depth active searching).Maintains Grounded := by
  induction depth generalizing active searching with
  | zero => exact fun _ _ _ _ h => h
  | succ depth ih =>
      intro id demanded unbox session h
      rw [run_evaluate_succ]
      cases layout.nodes.find? id with
      | none => exact h
      | some placement =>
          dsimp only
          split
          · exact h.evolves (.noting h.formed _) rfl
          · have hentered := h.evolves (.noting h.formed (.entered id demanded)) rfl
            have hproven := rule_grounded (ih (id :: active) searching)
              (evaluate_sound layout depth (id :: active) (id :: searching))
              (ih (id :: active) (id :: searching)) searching placement.scope demanded unbox
              placement.expr hentered
            exact hproven.evolves (leaving_evolves hproven.formed ..) rfl

end Grounds

/-! ## Meanings stay -/

section Meanings

variable {layout : Layout} {active searching : List NodeId} {session : Session Progress}

/-- A lookup means a name, while some nodes are under evaluation and some lookups searched. -/
structure Means (node : NodeId) (name : NameId) (active searching : List NodeId)
    (session : Session Progress) : Prop where
  nested : Nested active searching session
  resolved : session.defs.resolved.find? node = some name

theorem means_indifferent (node : NodeId) (name : NameId) (active searching : List NodeId) :
    Session.Indifferent (Means node name active searching) :=
  fun before after hdefs hscopes hintrinsics htrace h =>
    ⟨nested_indifferent active searching before after hdefs hscopes hintrinsics htrace h.nested,
      by rw [hdefs]; exact h.resolved⟩

theorem resolve_means {node : NodeId} {name : NameId} {during : Definer Progress} {mark : Mark}
    (hduring : during.Maintains (Means node name active (mark.id :: searching))) (scope : ScopeId)
    (path : List String) (h : Means node name active searching session) :
    Means node name active searching
      ((resolve during searching scope mark path).run session).2 := by
  rw [run_resolve]
  cases hresolved : session.defs.resolved.find? mark.id with
  | some meant => exact h
  | none =>
      dsimp only
      split
      · exact h
      · next hid =>
        have hfound := lookup_maintains (means_indifferent node name active _) hduring scope path
          mark.span ⟨h.nested.beginning hid hresolved, h.resolved⟩
        refine ⟨hfound.nested.ending hid _, ?_⟩
        -- a lookup that is being searched means nothing, so it is not this one
        have hnone := hfound.nested.unresolved mark.id List.mem_cons_self
        refine (Progress.find?_resolve ..).trans (if_neg ?_ |>.trans hfound.resolved)
        rintro rfl
        cases hnone.symm.trans hfound.resolved

theorem rule_means {node : NodeId} {name : NameId} {again during : Definer Progress} {expr : Expr}
    (hagain : again.Maintains (Means node name active searching))
    (hduring : during.Maintains (Means node name active (expr.id :: searching))) (scope : ScopeId)
    (demanded : Kinds) (unbox : Bool) (h : Means node name active searching session) :
    Means node name active searching
      ((rule again during searching scope demanded unbox expr).run session).2 := by
  have hindifferent := means_indifferent node name active searching
  refine rule_preserves (fun session error h => ?_) (fun session demanded unbox h => ?_) hagain
    (fun path session h => ?_) demanded unbox h
  · exact reporting_maintains hindifferent h _
  · exact ⟨h.nested.ensureIntrinsic .., by rw [defs_ensureIntrinsic]; exact h.resolved⟩
  · have hfound := resolve_means hduring scope path h
    exact ⟨hfound, fun found _ demanded unbox =>
      ensure_maintains hindifferent hagain found demanded unbox hfound⟩

theorem evaluate_means {node : NodeId} {name : NameId}
    (hplaced : ∀ id placement, layout.nodes.find? id = some placement → placement.expr.id = id)
    (depth : Nat) (active searching : List NodeId) :
    (evaluate layout depth active searching).Maintains (Means node name active searching) := by
  induction depth generalizing active searching with
  | zero => exact fun _ _ _ _ h => h
  | succ depth ih =>
      intro id demanded unbox session h
      rw [run_evaluate_succ]
      cases hplacement : layout.nodes.find? id with
      | none => exact h
      | some placement =>
          obtain rfl := hplaced id placement hplacement
          dsimp only
          split
          · next hactive => exact ⟨h.nested.reentering hactive, h.resolved⟩
          · next hidle =>
            have hproven := rule_means (ih (placement.expr.id :: active) searching)
              (ih (placement.expr.id :: active) (placement.expr.id :: searching)) placement.scope
              demanded unbox ⟨h.nested.entering hidle demanded, h.resolved⟩
            exact ⟨hproven.nested.leaving _, hproven.resolved⟩

end Meanings

/-! ## What stands -/

section Stands

variable {layout : Layout} {active searching : List NodeId} {session : Session Progress}

theorem Standing.placed (h : Standing layout active searching session) (id : NodeId)
    (placement : Placement) (hplaced : layout.nodes.find? id = some placement) :
    placement.expr.id = id :=
  (h.balanced.placed id placement hplaced).1

/-- An evaluation leaves everything as an evaluation may rely on, and comes back with a later state
of the session. -/
theorem evaluate_standing (depth : Nat) (id : NodeId) (demanded : Kinds) (unbox : Bool)
    (h : Standing layout active searching session) :
    Standing layout active searching
        ((evaluate layout depth active searching id demanded unbox).run session).2 ∧
      Precedes session ((evaluate layout depth active searching id demanded unbox).run session).2 := by
  have hgrounded := evaluate_grounded layout depth active searching id demanded unbox session
    h.toGrounded
  have hnested := evaluate_nested h.placed depth active searching id demanded unbox session h.nested
  have hbalanced := evaluate_maintains layout depth active searching id demanded unbox session
    h.balanced
  have hevolves := evaluate_sound layout depth active searching id demanded unbox session h.formed
  refine ⟨⟨hgrounded, hnested, hbalanced, hevolves.reporter.counts h.counts⟩, hevolves,
    fun node name hname => ?_⟩
  have hmeans : Means node name active searching session := ⟨h.nested, hname⟩
  exact (evaluate_means h.placed depth active searching id demanded unbox session hmeans).resolved

/-- So does a demand on a name. -/
theorem ensure_standing (depth : Nat) (id : NameId) (demanded : Kinds) (unbox : Bool)
    (h : Standing layout active searching session) :
    let after := ((ensure (evaluate layout depth active searching) id demanded unbox).run session).2
    Standing layout active searching after ∧ Precedes session after := by
  have hgrounded := ensure_grounded (evaluate_grounded layout depth active searching) id demanded
    unbox h.toGrounded
  have hnested := ensure_maintains (nested_indifferent active searching)
    (evaluate_nested h.placed depth active searching) id demanded unbox h.nested
  have hbalanced := ensure_maintains (balanced_indifferent layout)
    (evaluate_maintains layout depth active searching) id demanded unbox h.balanced
  have hevolves := ensure_evolves (evaluate_sound layout depth active searching) id demanded unbox
    h.formed
  refine ⟨⟨hgrounded, hnested, hbalanced, hevolves.reporter.counts h.counts⟩, hevolves,
    fun node name hname => ?_⟩
  have hmeans : Means node name active searching session := ⟨h.nested, hname⟩
  exact (ensure_maintains (means_indifferent node name active searching)
    (evaluate_means h.placed depth active searching) id demanded unbox hmeans).resolved

/-- So does the search for what a lookup means, and then the lookup means a name that there is,
unless the search has begun before. -/
theorem resolve_standing (depth : Nat) (scope : ScopeId) (mark : Mark) (path : List String)
    (h : Standing layout active searching session) :
    let found := (resolve (evaluate layout depth active (mark.id :: searching)) searching scope mark
      path).run session
    Standing layout active searching found.2 ∧ Precedes session found.2 ∧
      (∀ name, found.1 = some name → found.2.defs.resolved.find? mark.id = some name) ∧
        (found.1 = none → mark.id ∈ searching) := by
  have hsound := evaluate_sound layout depth active (mark.id :: searching)
  have hgrounded := resolve_grounded (evaluate_grounded layout depth active (mark.id :: searching))
    hsound searching scope mark path h.toGrounded
  have hnested := resolve_nested (evaluate_nested h.placed depth active (mark.id :: searching)) scope
    path h.nested
  have hbalanced := resolve_maintains (evaluate_maintains layout depth active (mark.id :: searching))
    searching scope mark path h.balanced
  have hevolves := resolve_evolves hsound searching scope mark path h.formed
  refine ⟨⟨hgrounded, hnested, hbalanced, hevolves.reporter.counts h.counts⟩,
    ⟨hevolves, fun node name hname => ?_⟩, resolve_meaning _ searching scope mark path session⟩
  have hmeans : Means node name active searching session := ⟨h.nested, hname⟩
  exact (resolve_means (evaluate_means h.placed depth active (mark.id :: searching)) scope path
    hmeans).resolved

end Stands

/-! ## Whole units -/

section Units

variable {layout : Layout} {session : Session Progress}

theorem start_standing (unit : Expr) (file : String) (topLevel : Bool) :
    Standing (Survey.ofUnit unit file topLevel).defs [] []
      (start (Survey.ofUnit unit file topLevel)) where
  formed := (Survey.kept_ofUnit unit file topLevel).formed
  known _ _ h := by cases h
  nested := nested_start (Survey.kept_ofUnit unit file topLevel).untraced rfl
  balanced := start_balanced unit file topLevel
  counts := (Survey.kept_ofUnit unit file topLevel).counts

theorem classify_standing (id : NodeId) (h : Standing layout [] [] session) :
    Standing layout [] [] ((classify layout id).run session).2 ∧
      Precedes session ((classify layout id).run session).2 := by
  rw [run_classify]
  cases hplaced : layout.nodes.find? id with
  | none => exact ⟨h, .refl h.formed⟩
  | some placement =>
      dsimp only
      split
      · next path hway =>
        obtain rfl := h.placed id placement hplaced
        obtain ⟨hfound, hprecedes, -⟩ := resolve_standing (depthOf layout) placement.scope
          placement.expr.mark path h
        exact ⟨hfound, hprecedes⟩
      · exact ⟨h, .refl h.formed⟩

theorem answer_standing (ask : Ask) (h : Standing layout [] [] session) :
    Standing layout [] [] ((answer layout ask).run session).2 ∧
      Precedes session ((answer layout ask).run session).2 := by
  cases ask with
  | node id kinds => exact evaluate_standing (depthOf layout) id kinds false h
  | definition value =>
      unfold answer
      dsimp only
      split
      · next name _ => exact ensure_standing (depthOf layout) name .any false h
      · exact evaluate_standing (depthOf layout) value .any false h

end Units

end Evaluation

end FrameLang
