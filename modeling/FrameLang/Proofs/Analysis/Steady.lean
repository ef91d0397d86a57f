import FrameLang.Proofs.Analysis.Weighing

/-!
# Sessions in which demands are made

By the time demands are made every lookup means a name.  From then on no names are
made and no meanings are found: evaluation goes from node to node in the same way
whatever is known of them, and only comes to know more (`Evaluation.Keeps`).
-/

namespace FrameLang

/-! ## Steady sessions -/

namespace Evaluation

open ScopeM

/-- What is true of a session in which every lookup means a name. -/
structure Steady (layout : Layout) (session : Session Progress) : Prop where
  formed : session.tree.Formed
  balanced : Balanced layout session
  known : ∀ node name, session.defs.resolved.find? node = some name →
    name.index < session.tree.names.size
  meant : ∀ id placement path, layout.nodes.find? id = some placement →
    placement.expr.way = .lookup path → ∃ name, session.defs.resolved.find? id = some name
  bound : ∀ value name, layout.bindings.find? value = some name →
    name.index < session.tree.names.size
  counts : session.reporter.Counts

/-- A steady session comes to know more and stays steady. -/
structure Keeps (layout : Layout) (before after : Session Progress) : Prop where
  steady : Steady layout after
  evolves : before.Evolves after
  resolved : after.defs.resolved = before.defs.resolved

/-- A definer that keeps sessions steady. -/
def Keeper (layout : Layout) (definer : Definer Progress) : Prop :=
  ∀ node demanded unbox session, Steady layout session →
    Keeps layout session ((definer node demanded unbox).run session).2

section Steps

variable {layout : Layout} {session before after : Session Progress}

theorem Keeps.refl (h : Steady layout session) : Keeps layout session session :=
  ⟨h, .refl h.formed, rfl⟩

theorem Keeps.trans {first second third : Session Progress} (h : Keeps layout first second)
    (h' : Keeps layout second third) : Keeps layout first third :=
  ⟨h'.steady, h.evolves.trans h'.evolves, h'.resolved.trans h.resolved⟩

/-- A session stays steady as long as no meanings are found. -/
theorem Steady.keeps (h : Steady layout before) (hevolves : before.Evolves after)
    (hresolved : after.defs.resolved = before.defs.resolved) (hbalanced : Balanced layout after) :
    Keeps layout before after := by
  refine ⟨⟨hevolves.formed, hbalanced, fun node name hname => ?_, ?_,
    fun value name hname => Nat.lt_of_lt_of_le (h.bound value name hname) hevolves.grows.size_names,
    hevolves.reporter.counts h.counts⟩, hevolves, hresolved⟩
  · rw [hresolved] at hname
    exact Nat.lt_of_lt_of_le (h.known node name hname) hevolves.grows.size_names
  · rw [hresolved]
    exact h.meant

theorem Steady.noting (h : Steady layout session) (event : Event) :
    Keeps layout session (session.noting event) :=
  h.keeps (.noting h.formed event) rfl (h.balanced.noting event)

theorem Steady.demanding (h : Steady layout session) (id : NameId) (demanded : Kinds)
    (unbox : Bool) : Keeps layout session (session.demanding id demanded unbox) :=
  h.keeps (.demanding h.formed id demanded unbox) rfl
    (modifyName_maintains (balanced_indifferent layout) h.balanced id _)

theorem Steady.proving (h : Steady layout session) (id : NameId) (proven : Kinds) :
    Keeps layout session (session.proving id proven) :=
  h.keeps (.proving h.formed id proven) rfl
    (modifyName_maintains (balanced_indifferent layout) h.balanced id _)

theorem Steady.reporting (h : Steady layout session) (error : Diagnostic) :
    Keeps layout session (session.reporting (session.reporter.push error)) :=
  h.keeps (.reporting h.formed (Reporter.grows_push ..)) rfl
    (reporting_maintains (balanced_indifferent layout) h.balanced _)

theorem Steady.leaf (h : Steady layout session) (span : Span) (natural demanded : Kinds) :
    Keeps layout session ((leaf span natural demanded).run session).2 := by
  rw [run_leaf]
  split
  · exact .refl h
  · exact h.reporting _

/-- The evaluation of a node that is not an arithmetic operation has come to its end. -/
theorem Steady.leaving (h : Steady layout session) {expr : Expr} {scope : ScopeId}
    (hplaced : layout.nodes.find? expr.id = some ⟨expr, scope⟩)
    (hway : ∀ left right, expr.way ≠ .arithmetic left right) (proven : Kinds) :
    Keeps layout session (leaving session expr.id proven) :=
  h.keeps (leaving_evolves h.formed ..) rfl (h.balanced.leaving hplaced hway proven)

/-- An arithmetic operation has been weighed and left. -/
theorem Steady.weighing (h : Steady layout session) {expr : Expr} {scope : ScopeId}
    {left right : NodeId} (hplaced : layout.nodes.find? expr.id = some ⟨expr, scope⟩)
    (hway : expr.way = .arithmetic left right) {natural : Kinds} (hnatural : natural ≠ ∅)
    (demanded : Kinds) (unbox : Bool) (span : Span) :
    Keeps layout session (Evaluation.leaving
      (weighing scope expr.id natural demanded unbox span session).2 expr.id
        (weighing scope expr.id natural demanded unbox span session).1) := by
  have hweighed := weighed_weighing h.balanced hplaced hway hnatural demanded unbox span
  have hfirst := ensureIntrinsic_evolves scope expr.id natural true span h.formed
  have hsecond := ensureIntrinsic_evolves scope expr.id demanded unbox span hfirst.formed
  exact h.keeps ((hfirst.trans hsecond).trans (leaving_evolves hsecond.formed ..))
    hweighed.resolved hweighed.balanced

/-- In a steady session a lookup is not searched any more. -/
theorem Steady.run_resolve (h : Steady layout session) (during : Definer Progress)
    (searching : List NodeId) {expr : Expr} {scope : ScopeId} {path : List String}
    (hplaced : layout.nodes.find? expr.id = some ⟨expr, scope⟩) (hway : expr.way = .lookup path) :
    ∃ name, session.defs.resolved.find? expr.id = some name ∧
      name.index < session.tree.names.size ∧
        (resolve during searching scope expr.mark path).run session = (some name, session) := by
  obtain ⟨name, hname⟩ := h.meant expr.id _ path hplaced hway
  refine ⟨name, hname, h.known _ name hname, ?_⟩
  rw [Evaluation.run_resolve]
  have hmark : session.defs.resolved.find? expr.mark.id = some name := hname
  rw [hmark]

end Steps

/-! ## Demands keep sessions steady -/

section Keepers

variable {layout : Layout} {session : Session Progress} {definer : Definer Progress}
  (hdefiner : Keeper layout definer)
include hdefiner

theorem follows_keeps {id : NameId} {demanded : Kinds} {unbox : Bool}
    {followed : Kinds × Session Progress}
    (hfollows : Follows definer demanded unbox id session followed) (h : Steady layout session) :
    Keeps layout session followed.2 := by
  induction hfollows with
  | settled id _ => exact h.demanding id demanded unbox
  | refused id _ =>
      have hdemanded := h.demanding id demanded unbox
      exact hdemanded.trans (hdemanded.steady.reporting _)
  | delegated id _ _ _ ih =>
      have hdemanded := h.demanding id demanded unbox
      exact hdemanded.trans (ih hdemanded.steady)
  | bound id node _ hdefined =>
      have hdemanded := h.demanding id demanded unbox
      have hnoted := hdemanded.trans (hdemanded.steady.noting (.defining node demanded unbox))
      have hproven := hnoted.trans (hdefined ▸ hdefiner node demanded unbox _ hnoted.steady)
      exact hproven.trans (hproven.steady.proving id _)

theorem follow_keeps (id : NameId) (demanded : Kinds) (unbox : Bool)
    (h : Steady layout session) :
    Keeps layout session ((follow definer id demanded unbox).run session).2 :=
  follows_keeps hdefiner (follows_follow definer id demanded unbox h.formed) h

theorem ensure_keeps (id : NameId) (demanded : Kinds) (unbox : Bool) (h : Steady layout session) :
    Keeps layout session ((ensure definer id demanded unbox).run session).2 := by
  have hasked := h.noting (.asked id demanded unbox)
  have hfollowed := hasked.trans (follow_keeps hdefiner id demanded unbox hasked.steady)
  rw [run_ensure]
  exact hfollowed.trans (hfollowed.steady.noting _)

end Keepers

/-! ## Evaluation keeps sessions steady -/

section Rules

variable {layout : Layout} {session : Session Progress}

/-- In a steady session, what a lookup means is known. -/
theorem run_rule_of_steady (h : Steady layout session) (again during : Definer Progress)
    (searching : List NodeId) {expr : Expr} {scope : ScopeId} {path : List String}
    (hplaced : layout.nodes.find? expr.id = some ⟨expr, scope⟩) (hway : expr.way = .lookup path)
    (demanded : Kinds) (unbox : Bool) :
    ∃ name, session.defs.resolved.find? expr.id = some name ∧
      name.index < session.tree.names.size ∧
        (rule again during searching scope demanded unbox expr).run session =
          (ensure again name demanded unbox).run session := by
  obtain ⟨name, hname, hsize, hrun⟩ := h.run_resolve during searching hplaced hway
  refine ⟨name, hname, hsize, ?_⟩
  rw [run_rule, hway]
  dsimp only
  rw [hrun]

theorem rule_keeps {again : Definer Progress} (hagain : Keeper layout again)
    (during : Definer Progress) (searching : List NodeId) (h : Steady layout session) {expr : Expr}
    {scope : ScopeId} (hplaced : layout.nodes.find? expr.id = some ⟨expr, scope⟩)
    (demanded : Kinds) (unbox : Bool) :
    Keeps layout session
      (leaving ((rule again during searching scope demanded unbox expr).run session).2 expr.id
        ((rule again during searching scope demanded unbox expr).run session).1) := by
  -- only arithmetic operations are not steady before they are left
  have hleave : (∀ left right, expr.way ≠ .arithmetic left right) →
      Keeps layout session ((rule again during searching scope demanded unbox expr).run session).2 →
        Keeps layout session
          (leaving ((rule again during searching scope demanded unbox expr).run session).2 expr.id
            ((rule again during searching scope demanded unbox expr).run session).1) :=
    fun hother hkeeps => hkeeps.trans (hkeeps.steady.leaving hplaced hother _)
  cases hway : expr.way with
  | leaf natural =>
      refine hleave (by simp [hway]) ?_
      simp only [run_rule, hway]
      exact h.leaf expr.span natural demanded
  | lookup path =>
      obtain ⟨name, -, -, hrun⟩ :=
        run_rule_of_steady h again during searching hplaced hway demanded unbox
      refine hleave (by simp [hway]) ?_
      rw [hrun]
      exact ensure_keeps hagain name demanded unbox h
  | coalesce primary fallback =>
      refine hleave (by simp [hway]) ?_
      simp only [run_rule, hway]
      have hfallback := hagain fallback demanded unbox session h
      have hprimary := hagain primary (demanded ∪ {.unit}) unbox _ hfallback.steady
      exact hfallback.trans hprimary
  | choose consequent alternative =>
      refine hleave (by simp [hway]) ?_
      simp only [run_rule, hway]
      have hconsequent := hagain consequent demanded unbox session h
      have halternative := hagain alternative demanded unbox _ hconsequent.steady
      exact hconsequent.trans halternative
  | arithmetic left right =>
      rw [run_rule_arithmetic again during searching hway]
      have hleft := hagain left .number true session h
      have hright := hleft.trans (hagain right .number true _ hleft.steady)
      dsimp only
      exact hright.trans (hright.steady.weighing hplaced hway (arithmeticKinds_ne_empty _ _)
        demanded unbox expr.span)
  | enforce value kinds =>
      refine hleave (by simp [hway]) ?_
      simp only [run_rule, hway]
      have hvalue := hagain value kinds true session h
      have hleaf := hvalue.steady.leaf expr.span kinds demanded
      exact hvalue.trans hleaf
  | body node =>
      refine hleave (by simp [hway]) ?_
      simp only [run_rule, hway]
      exact hagain node demanded unbox session h

end Rules

theorem evaluate_keeps (layout : Layout) (depth : Nat) (active searching : List NodeId) :
    Keeper layout (evaluate layout depth active searching) := by
  induction depth generalizing active searching with
  | zero => exact fun _ _ _ _ h => .refl h
  | succ depth ih =>
      intro id demanded unbox session h
      rw [run_evaluate_succ]
      cases hplaced : layout.nodes.find? id with
      | none => exact .refl h
      | some placement =>
          obtain ⟨rfl, -⟩ := h.balanced.placed id placement hplaced
          dsimp only
          split
          · exact h.noting _
          · have hentered := h.noting (.entered placement.expr.id demanded)
            exact hentered.trans (rule_keeps (ih (placement.expr.id :: active) searching)
              (evaluate layout depth (placement.expr.id :: active)
                (placement.expr.id :: searching)) searching hentered.steady hplaced demanded unbox)

/-! ## Demands of a unit keep sessions steady -/

section Demands

variable {layout : Layout} {session : Session Progress}

theorem definer_keeps (layout : Layout) : Keeper layout (definer layout) :=
  evaluate_keeps layout (depthOf layout) [] []

theorem answer_keeps (h : Steady layout session) (ask : Ask) :
    Keeps layout session ((answer layout ask).run session).2 := by
  cases ask with
  | node id kinds => exact definer_keeps layout id kinds false session h
  | definition value =>
      unfold answer
      dsimp only
      split
      · exact ensure_keeps (definer_keeps layout) _ .any false h
      · exact definer_keeps layout value .any false session h

theorem forM_keeps {α : Type} {step : α → ScopeM Progress PUnit} (items : List α)
    (h : Steady layout session)
    (hstep : ∀ item (session : Session Progress), Steady layout session →
      Keeps layout session ((step item).run session).2) :
    Keeps layout session ((items.forM step).run session).2 :=
  forM_preserves (Keeps layout session) items
    (fun item _ later hkeeps => hkeeps.trans (hstep item later hkeeps.steady)) (.refl h)

theorem meet_keeps (h : Steady layout session) (demands : List Demand) :
    Keeps layout session ((meet layout demands).run session).2 :=
  forM_keeps demands h fun demand _ hdemand =>
    forM_keeps demand.asks hdemand fun ask _ hask => answer_keeps hask ask

end Demands

/-! ## Whole units -/

section Units

variable (unit : Expr) (file : String) (topLevel : Bool)

/-- Once every lookup has been classified, the session is steady. -/
theorem classified_steady : Steady (Survey.ofUnit unit file topLevel).defs
    (classified (Survey.ofUnit unit file topLevel)) := by
  obtain ⟨hexplored, hadvances⟩ := classified_explored unit file topLevel
  refine ⟨hexplored.formed, classified_balanced unit file topLevel, hexplored.known, ?_,
    fun value name hname => Nat.lt_of_lt_of_le (lt_size_of_binding unit file topLevel hname)
      hadvances.evolves.grows.size_names, hexplored.counts⟩
  intro id placement path hid hway
  obtain ⟨hexpr, -⟩ := hexplored.placed id placement hid
  obtain ⟨expr, scope⟩ := placement
  cases expr with
  | lookup mark components =>
      obtain rfl : mark.id = id := hexpr
      exact classified_resolves hid
  | _ => cases hway

/-- The session once every demand has been made. -/
def met (surveyed : Session Layout) : Session Progress :=
  ((meet surveyed.defs (byPriority (classified surveyed).tree surveyed.defs.demands)).run
    (classified surveyed)).2

theorem met_keeps : Keeps (Survey.ofUnit unit file topLevel).defs
    (classified (Survey.ofUnit unit file topLevel)) (met (Survey.ofUnit unit file topLevel)) :=
  meet_keeps (classified_steady unit file topLevel) _

end Units

end Evaluation

end FrameLang
