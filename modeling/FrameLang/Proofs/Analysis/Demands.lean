import FrameLang.Proofs.Analysis.Steady

/-!
# Demands are carried out

A demand on a node is *served* when everything that its evaluation asks for has been
met: the demands on names, on the definitions behind them, and on the nodes inside
the node (`Evaluation.Served`).  If nothing is wrong with a unit, every demand has
been served in the end (`Evaluation.meet_serves`), because a demand that has been
served stays served.

## Strategy

`Served` goes through the nodes like `evaluate` does, and it leaves out those that
are under evaluation as well.  What it says about names does not depend on the
order of demands, since what is known of a name only gets less.
-/

namespace FrameLang

namespace Evaluation

open ScopeM

/-! ## Definitions -/

/-- A demand on a name has been met, and its definition has been asked for the same. -/
def NameServed (session : Session Progress) (again : NodeId → Kinds → Prop) (name : NameId)
    (demanded : Kinds) : Prop :=
  session.tree.Met name demanded ∧
    ∀ node, session.tree.definition? name = some node → again node demanded

/-- Everything that the rule of an expression asks for has been met. -/
def ServedBy (session : Session Progress) (again : NodeId → Kinds → Prop) (demanded : Kinds)
    (expr : Expr) : Prop :=
  match expr.way with
  | .leaf natural => natural.meets demanded = true
  | .lookup _ => ∀ name, session.defs.resolved.find? expr.id = some name →
      NameServed session again name demanded
  | .coalesce primary fallback => again fallback demanded ∧ again primary (demanded ∪ {.unit})
  | .choose consequent alternative => again consequent demanded ∧ again alternative demanded
  | .arithmetic left right =>
      again left .number ∧ again right .number ∧ session.defs.kindsOf expr.id ⊆ demanded
  | .enforce value kinds => again value kinds ∧ kinds.meets demanded = true
  | .body node => again node demanded

/-- Everything that the evaluation of a node asks for has been met. -/
def Served (layout : Layout) (session : Session Progress) :
    (depth : Nat) → (active : List NodeId) → NodeId → Kinds → Prop
  | 0, _, _, _ => True
  | depth + 1, active, id, demanded =>
      ∀ placement, layout.nodes.find? id = some placement → id ∉ active →
        ServedBy session (Served layout session depth (id :: active)) demanded placement.expr

/-- Everything that a request asks for has been met. -/
def AskServed (layout : Layout) (session : Session Progress) : Ask → Prop
  | .node id kinds => Served layout session (depthOf layout) [] id kinds
  | .definition value =>
      match layout.bindings.find? value with
      | some name => NameServed session (Served layout session (depthOf layout) []) name .any
      | none => Served layout session (depthOf layout) [] value .any

/-! ## What has been served stays served -/

section Stays

variable {layout : Layout} {before after : Session Progress}

theorem NameServed.keeps (h : Steady layout before) (hkeeps : Keeps layout before after)
    {again again' : NodeId → Kinds → Prop}
    (hagain : ∀ node kinds, again node kinds → again' node kinds)
    {name : NameId} (hname : name.index < before.tree.names.size) {demanded : Kinds}
    (hserved : NameServed before again name demanded) :
    NameServed after again' name demanded := by
  obtain ⟨hmet, hdefinition⟩ := hserved
  refine ⟨hmet.grows h.formed hkeeps.steady.formed hkeeps.evolves.grows hname, fun node hnode => ?_⟩
  rw [hkeeps.evolves.grows.definition? h.formed hname] at hnode
  exact hagain node demanded (hdefinition node hnode)

theorem ServedBy.keeps (h : Steady layout before) (hkeeps : Keeps layout before after)
    {again again' : NodeId → Kinds → Prop}
    (hagain : ∀ node kinds, again node kinds → again' node kinds)
    {demanded : Kinds} {expr : Expr} (hserved : ServedBy before again demanded expr) :
    ServedBy after again' demanded expr := by
  unfold ServedBy at hserved ⊢
  cases hway : expr.way with
  | leaf natural =>
      rw [hway] at hserved
      exact hserved
  | lookup path =>
      rw [hway] at hserved
      intro name hname
      rw [hkeeps.resolved] at hname
      exact (hserved name hname).keeps h hkeeps hagain (h.known _ name hname)
  | coalesce primary fallback =>
      rw [hway] at hserved
      exact hserved.imp (hagain _ _) (hagain _ _)
  | choose consequent alternative =>
      rw [hway] at hserved
      exact hserved.imp (hagain _ _) (hagain _ _)
  | arithmetic left right =>
      rw [hway] at hserved
      obtain ⟨hleft, hright, hkinds⟩ := hserved
      exact ⟨hagain _ _ hleft, hagain _ _ hright,
        Kinds.subset_trans (hkeeps.evolves.later.kinds expr.id).subset hkinds⟩
  | enforce value kinds =>
      rw [hway] at hserved
      exact hserved.imp_left (hagain _ _)
  | body node =>
      rw [hway] at hserved
      exact hagain _ _ hserved

theorem Served.keeps (h : Steady layout before) (hkeeps : Keeps layout before after) {depth : Nat}
    {active : List NodeId} {id : NodeId} {demanded : Kinds}
    (hserved : Served layout before depth active id demanded) :
    Served layout after depth active id demanded := by
  induction depth generalizing active id demanded with
  | zero => trivial
  | succ depth ih =>
      intro placement hplaced hnot
      exact (hserved placement hplaced hnot).keeps h hkeeps fun _ _ hinner => ih hinner

/-- What is true of a node stays true of it. -/
def Lasting (layout : Layout) (served : Session Progress → NodeId → Kinds → Prop) : Prop :=
  ∀ before after node kinds, Steady layout before → Keeps layout before after →
    served before node kinds → served after node kinds

theorem served_lasting (layout : Layout) (depth : Nat) (active : List NodeId) :
    Lasting layout fun session => Served layout session depth active :=
  fun _ _ _ _ h hkeeps hserved => Served.keeps h hkeeps hserved

theorem AskServed.keeps (h : Steady layout before) (hkeeps : Keeps layout before after) {ask : Ask}
    (hserved : AskServed layout before ask) : AskServed layout after ask := by
  cases ask with
  | node id kinds => exact Served.keeps h hkeeps hserved
  | definition value =>
      unfold AskServed at hserved ⊢
      dsimp only at hserved ⊢
      cases hbound : layout.bindings.find? value with
      | none =>
          rw [hbound] at hserved
          exact Served.keeps h hkeeps hserved
      | some name =>
          rw [hbound] at hserved
          exact NameServed.keeps h hkeeps (fun _ _ hinner => Served.keeps h hkeeps hinner)
            (h.bound value name hbound) hserved

/-- If nothing is wrong now, nothing was wrong before. -/
theorem clean_of_evolves (h : before.Evolves after)
    (hclean : after.reporter.report.totalErrors = 0) : before.reporter.report.totalErrors = 0 :=
  h.reporter.clean hclean

end Stays

/-! ## Demands on names -/

/-- What a demand makes of what is known with a name. -/
theorem origin_demanding {σ : Type} (session : Session σ) (id : NameId) (demanded : Kinds)
    (unbox : Bool) : ((session.demanding id demanded unbox).tree.name id).origin =
      (session.tree.name id).origin.narrow demanded := by
  have hname : (session.demanding id demanded unbox).tree.name id =
      (session.tree.name id).afterDemand demanded unbox :=
    ScopeTree.name_modifyName_self _ _ rfl
  rw [hname, NameRecord.origin_afterDemand]

/-- A name that does not hand demands on is its own bearer, so it has met a demand unless the
demand is refused. -/
theorem met_demanding {σ : Type} {session : Session σ} {id : NameId} {demanded : Kinds}
    (unbox : Bool) (hnot : ∀ source, (session.tree.name id).origin ≠ .delegated source)
    (hagrees : ∀ known, (session.tree.name id).origin.answer demanded ≠ .refused known) :
    (session.demanding id demanded unbox).tree.Met id demanded := by
  have horigin := origin_demanding session id demanded unbox
  have hnot' : ∀ source,
      ((session.demanding id demanded unbox).tree.name id).origin ≠ .delegated source := by
    intro source hdelegated
    rw [horigin] at hdelegated
    exact hnot source ((Origin.narrows_narrow _ demanded).delegated_iff.mp hdelegated)
  rw [ScopeTree.Met, ScopeTree.bearer_of_not_delegated hnot', horigin]
  exact Origin.met_narrow hagrees

/-- A definer that serves what is demanded of it, if nothing goes wrong. -/
def Server (layout : Layout) (definer : Definer Progress)
    (served : Session Progress → NodeId → Kinds → Prop) : Prop :=
  ∀ node demanded unbox session, Steady layout session →
    ((definer node demanded unbox).run session).2.reporter.report.totalErrors = 0 →
      served ((definer node demanded unbox).run session).2 node demanded

section Names

variable {layout : Layout} {definer : Definer Progress} {session : Session Progress}
  {served : Session Progress → NodeId → Kinds → Prop} (hkeeper : Keeper layout definer)
  (hserver : Server layout definer served) (hstays : Lasting layout served)
include hkeeper hserver hstays

theorem follow_serves (id : NameId) (demanded : Kinds) (unbox : Bool) (h : Steady layout session)
    (hid : id.index < session.tree.names.size)
    (hclean : ((follow definer id demanded unbox).run session).2.reporter.report.totalErrors = 0) :
    NameServed ((follow definer id demanded unbox).run session).2
      (served ((follow definer id demanded unbox).run session).2) id demanded := by
  have hfollows := follows_follow definer id demanded unbox h.formed
  generalize (follow definer id demanded unbox).run session = followed at hfollows hclean ⊢
  induction hfollows with
  | @settled id session proven hanswer =>
      have hdemanded := h.demanding id demanded unbox
      have hmet : (session.demanding id demanded unbox).tree.Met id demanded :=
        met_demanding unbox (fun source heq => by simp [heq, Origin.answer] at hanswer)
          (by simp [hanswer])
      refine ⟨hmet, fun node hnode => ?_⟩
      have hnone : session.tree.definition? id = none :=
        ScopeTree.definition?_of_not_handedOn demanded (by simp [hanswer]) (by simp [hanswer])
      rw [hdemanded.evolves.grows.definition? h.formed hid, hnone] at hnode
      cases hnode
  | refused id _ => exact absurd hclean (Reporter.totalErrors_push_ne_zero h.counts _)
  | @delegated id source session followed horigin hrest ih =>
      have hdemanded := h.demanding id demanded unbox
      have hlt := (h.formed.source id source (by rw [horigin]; rfl)).1
      have hsource : source.index < (session.demanding id demanded unbox).tree.names.size :=
        Nat.lt_of_lt_of_le (Nat.lt_trans hlt hid) hdemanded.evolves.grows.size_names
      obtain ⟨hmet, hdefinition⟩ := ih hdemanded.steady hsource hclean
      have hfollowed := follows_keeps hkeeper hrest hdemanded.steady
      have hstill : (followed.2.tree.name id).origin = .delegated source :=
        ((hdemanded.trans hfollowed).evolves.grows.name id hid).origin.delegated_iff.mpr horigin
      refine ⟨?_, fun node hnode => hdefinition node ?_⟩
      · rw [ScopeTree.Met, ScopeTree.bearer_of_delegated hfollowed.steady.formed hstill]
        exact hmet
      · rw [← ScopeTree.definition?_of_delegated hfollowed.steady.formed hstill]
        exact hnode
  | @bound id node session kinds defined horigin hdefined =>
      have hdemanded := h.demanding id demanded unbox
      have hsize := Nat.lt_of_lt_of_le hid hdemanded.evolves.grows.size_names
      have hmet : (session.demanding id demanded unbox).tree.Met id demanded :=
        met_demanding unbox (by simp [horigin]) (by simp [horigin, Origin.answer])
      have hnoted := hdemanded.steady.noting (.defining node demanded unbox)
      have hkept := hkeeper node demanded unbox _ hnoted.steady
      have hserved := hserver node demanded unbox _ hnoted.steady
      rw [hdefined] at hkept hserved
      have hproving := hkept.steady.proving id defined.1
      have hrest := (hnoted.trans hkept).trans hproving
      refine ⟨hmet.grows hdemanded.steady.formed hrest.steady.formed hrest.evolves.grows hsize,
        fun other hother => ?_⟩
      rw [(hdemanded.trans hrest).evolves.grows.definition? h.formed hid,
        ScopeTree.definition?_of_bound horigin] at hother
      obtain rfl := Option.some.inj hother
      exact hstays _ _ node demanded hkept.steady hproving (hserved hclean)

theorem ensure_serves (id : NameId) (demanded : Kinds) (unbox : Bool) (h : Steady layout session)
    (hid : id.index < session.tree.names.size)
    (hclean : ((ensure definer id demanded unbox).run session).2.reporter.report.totalErrors = 0) :
    NameServed ((ensure definer id demanded unbox).run session).2
      (served ((ensure definer id demanded unbox).run session).2) id demanded := by
  have hasked := h.noting (.asked id demanded unbox)
  rw [run_ensure] at hclean ⊢
  dsimp only at hclean ⊢
  have hserved := follow_serves hkeeper hserver hstays id demanded unbox hasked.steady hid hclean
  have hfollowed := follow_keeps hkeeper id demanded unbox hasked.steady
  generalize (follow definer id demanded unbox).run (session.noting (.asked id demanded unbox)) =
    followed at hserved hfollowed ⊢
  have hanswered := hfollowed.steady.noting (.answered id followed.1)
  exact hserved.keeps hfollowed.steady hanswered
    (fun node kinds hinner => hstays _ _ node kinds hfollowed.steady hanswered hinner)
    (Nat.lt_of_lt_of_le hid hfollowed.evolves.grows.size_names)

end Names

/-! ## Demands on nodes -/

section Nodes

variable {layout : Layout} {session : Session Progress}

theorem leaf_serves {span : Span} {natural demanded : Kinds} (hcounts : session.reporter.Counts)
    (hclean : ((leaf span natural demanded).run session).2.reporter.report.totalErrors = 0) :
    natural.meets demanded = true := by
  rw [run_leaf] at hclean
  split at hclean
  · assumption
  · exact absurd hclean (Reporter.totalErrors_push_ne_zero hcounts _)

theorem rule_serves {depth : Nat} {active searching : List NodeId} (during : Definer Progress)
    (hserver : Server layout (evaluate layout depth active searching)
      fun session => Served layout session depth active)
    (h : Steady layout session) {expr : Expr} {scope : ScopeId}
    (hplaced : layout.nodes.find? expr.id = some ⟨expr, scope⟩) (demanded : Kinds) (unbox : Bool)
    {proven : Kinds × Session Progress}
    (hproven : (rule (evaluate layout depth active searching) during searching scope demanded unbox
      expr).run session = proven)
    (hclean : proven.2.reporter.report.totalErrors = 0) :
    ServedBy (leaving proven.2 expr.id proven.1)
      (Served layout (leaving proven.2 expr.id proven.1) depth active) demanded expr := by
  have hagain := evaluate_keeps layout depth active searching
  -- only an arithmetic operation has to be left before it is steady again
  have hleave : (∀ left right, expr.way ≠ .arithmetic left right) →
      Steady layout proven.2 → ServedBy proven.2 (Served layout proven.2 depth active) demanded expr →
        ServedBy (leaving proven.2 expr.id proven.1)
          (Served layout (leaving proven.2 expr.id proven.1) depth active) demanded expr := by
    intro hother hsteady hserved
    have hleft := hsteady.leaving hplaced hother proven.1
    exact hserved.keeps hsteady hleft fun _ _ hinner => hinner.keeps hsteady hleft
  cases hway : expr.way with
  | leaf natural =>
      rw [run_rule, hway] at hproven
      dsimp only at hproven
      subst hproven
      refine hleave (by simp [hway]) (h.leaf expr.span natural demanded).steady ?_
      simp only [ServedBy, hway]
      exact leaf_serves h.counts hclean
  | lookup path =>
      obtain ⟨name, hname, hsize, hrun⟩ :=
        run_rule_of_steady h (evaluate layout depth active searching) during searching hplaced hway
          demanded unbox
      rw [hrun] at hproven
      subst hproven
      have hensured := ensure_keeps hagain name demanded unbox h
      refine hleave (by simp [hway]) hensured.steady ?_
      have hserved := ensure_serves hagain hserver (served_lasting layout depth active) name demanded
        unbox h hsize hclean
      simp only [ServedBy, hway]
      intro other hother
      rw [hensured.resolved, hname] at hother
      obtain rfl := Option.some.inj hother
      exact hserved
  | coalesce primary fallback =>
      rw [run_rule, hway] at hproven
      dsimp only at hproven
      subst hproven
      have hfallback := hagain fallback demanded unbox session h
      have hprimary := hagain primary (demanded ∪ {.unit}) unbox _ hfallback.steady
      refine hleave (by simp [hway]) hprimary.steady ?_
      simp only [ServedBy, hway]
      refine ⟨?_, hserver primary _ unbox _ hfallback.steady hclean⟩
      exact (hserver fallback demanded unbox session h
        (clean_of_evolves hprimary.evolves hclean)).keeps hfallback.steady hprimary
  | choose consequent alternative =>
      rw [run_rule, hway] at hproven
      dsimp only at hproven
      subst hproven
      have hconsequent := hagain consequent demanded unbox session h
      have halternative := hagain alternative demanded unbox _ hconsequent.steady
      refine hleave (by simp [hway]) halternative.steady ?_
      simp only [ServedBy, hway]
      refine ⟨?_, hserver alternative _ unbox _ hconsequent.steady hclean⟩
      exact (hserver consequent demanded unbox session h
        (clean_of_evolves halternative.evolves hclean)).keeps hconsequent.steady halternative
  | arithmetic left right =>
      rw [run_rule_arithmetic _ during searching hway] at hproven
      dsimp only at hproven
      have hleft := hagain left .number true session h
      have hright := hagain right .number true _ hleft.steady
      have hleftServed := hserver left .number true session h
      have hrightServed := hserver right .number true _ hleft.steady
      generalize (evaluate layout depth active searching left .number true).run session = first
        at hproven hleft hright hleftServed hrightServed
      generalize (evaluate layout depth active searching right .number true).run first.2 = second
        at hproven hright hrightServed
      have hnatural := arithmeticKinds_ne_empty first.1 second.1
      generalize arithmeticKinds first.1 second.1 = natural at hproven hnatural
      have hweighed := weighed_weighing hright.steady.balanced hplaced hway hnatural demanded unbox
        expr.span
      have hkeeps := hright.steady.weighing hplaced hway hnatural demanded unbox expr.span
      rw [hproven] at hweighed hkeeps
      have hsecondClean := clean_of_evolves hkeeps.evolves hclean
      have hkinds : (leaving proven.2 expr.id proven.1).defs.kindsOf expr.id ⊆ demanded := by
        rw [hweighed.kindsOf, if_pos rfl]
        exact (hweighed.met hright.steady.counts hclean).2
      simp only [ServedBy, hway]
      refine ⟨?_, (hrightServed hsecondClean).keeps hright.steady hkeeps, hkinds⟩
      exact (hleftServed (clean_of_evolves hright.evolves hsecondClean)).keeps hleft.steady
        (hright.trans hkeeps)
  | enforce value kinds =>
      rw [run_rule, hway] at hproven
      dsimp only at hproven
      subst hproven
      have hvalue := hagain value kinds true session h
      have hleaf := hvalue.steady.leaf expr.span kinds demanded
      refine hleave (by simp [hway]) hleaf.steady ?_
      simp only [ServedBy, hway]
      refine ⟨?_, leaf_serves hvalue.steady.counts hclean⟩
      exact (hserver value kinds true session h
        (clean_of_evolves hleaf.evolves hclean)).keeps hvalue.steady hleaf
  | body node =>
      rw [run_rule, hway] at hproven
      dsimp only at hproven
      subst hproven
      refine hleave (by simp [hway]) (hagain node demanded unbox session h).steady ?_
      simp only [ServedBy, hway]
      exact hserver node demanded unbox session h hclean

/-- Whatever is demanded of a node is served, if nothing goes wrong. -/
theorem evaluate_serves (layout : Layout) (depth : Nat) (active searching : List NodeId) :
    Server layout (evaluate layout depth active searching)
      fun session => Served layout session depth active := by
  induction depth generalizing active searching with
  | zero => exact fun _ _ _ _ _ _ => trivial
  | succ depth ih =>
      intro id demanded unbox session h hclean placement hplaced hnot
      obtain ⟨rfl, -⟩ := h.balanced.placed id placement hplaced
      rw [run_evaluate_succ, hplaced] at hclean ⊢
      dsimp only at hclean ⊢
      rw [if_neg hnot] at hclean ⊢
      have hentered := h.noting (.entered placement.expr.id demanded)
      exact rule_serves (evaluate layout depth (placement.expr.id :: active)
        (placement.expr.id :: searching)) (ih (placement.expr.id :: active) searching)
          hentered.steady hplaced demanded unbox rfl hclean

end Nodes

/-! ## Demands of a unit -/

section Demands

variable {layout : Layout} {session : Session Progress}

theorem answer_serves (h : Steady layout session) (ask : Ask)
    (hclean : ((answer layout ask).run session).2.reporter.report.totalErrors = 0) :
    AskServed layout ((answer layout ask).run session).2 ask := by
  have hkeeper := definer_keeps layout
  have hserver := evaluate_serves layout (depthOf layout) [] []
  cases ask with
  | node id kinds => exact hserver id kinds false session h hclean
  | definition value =>
      unfold answer at hclean ⊢
      unfold AskServed
      dsimp only at hclean ⊢
      cases hbound : layout.bindings.find? value with
      | some name =>
          simp only [hbound] at hclean ⊢
          exact ensure_serves hkeeper hserver (served_lasting layout (depthOf layout) []) name .any
            false h (h.bound value name hbound) hclean
      | none =>
          simp only [hbound] at hclean ⊢
          exact hserver value .any false session h hclean

/-- What each of several steps achieves is there in the end, if nothing goes wrong. -/
theorem forM_serves {α : Type} {step : α → ScopeM Progress PUnit}
    (served : Session Progress → α → Prop) (items : List α) (h : Steady layout session)
    (hkeeps : ∀ item (session : Session Progress), Steady layout session →
      Keeps layout session ((step item).run session).2)
    (hstays : ∀ before after item, Steady layout before → Keeps layout before after →
      served before item → served after item)
    (hstep : ∀ item (session : Session Progress), Steady layout session →
      ((step item).run session).2.reporter.report.totalErrors = 0 →
        served ((step item).run session).2 item)
    (hclean : ((items.forM step).run session).2.reporter.report.totalErrors = 0) :
    ∀ item ∈ items, served ((items.forM step).run session).2 item := by
  induction items generalizing session with
  | nil => simp
  | cons first rest ih =>
      rw [run_forM_cons] at hclean ⊢
      have hfirst := hkeeps first session h
      have hrest := forM_keeps rest hfirst.steady hkeeps
      intro item hitem
      rcases List.mem_cons.mp hitem with rfl | hmem
      · exact hstays _ _ item hfirst.steady hrest
          (hstep item session h (clean_of_evolves hrest.evolves hclean))
      · exact ih hfirst.steady hclean item hmem

theorem meet_serves (h : Steady layout session) (demands : List Demand)
    (hclean : ((meet layout demands).run session).2.reporter.report.totalErrors = 0) :
    ∀ demand ∈ demands, ∀ ask ∈ demand.asks,
      AskServed layout ((meet layout demands).run session).2 ask :=
  forM_serves (fun session demand => ∀ ask ∈ demand.asks, AskServed layout session ask) demands h
    (fun demand _ hdemand => forM_keeps demand.asks hdemand fun ask _ hask => answer_keeps hask ask)
    (fun _ _ _ hsteady hkeeps hserved ask hask => (hserved ask hask).keeps hsteady hkeeps)
    (fun demand _ hdemand hclean => forM_serves (AskServed layout) demand.asks hdemand
      (fun ask _ hask => answer_keeps hask ask)
      (fun _ _ _ hsteady hkeeps hserved => hserved.keeps hsteady hkeeps)
      (fun ask _ hask hclean => answer_serves hask ask hclean) hclean) hclean

end Demands

end Evaluation

end FrameLang
