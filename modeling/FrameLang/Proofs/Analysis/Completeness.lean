import FrameLang.Proofs.Analysis.Agreement

/-!
# Every node is evaluated

Only some constructs make demands, and a demand is for some of the nodes inside them.  All
other nodes are evaluated along with another node, or not until a name is asked for its definition.
Nevertheless no node is left out: the evaluation of each node of a unit begins, and it comes to an
end (`Evaluation.entered_and_left`).

For a literal, a frame, a template and an instantiation this settles what they are.  Each of them
has one kind whatever is demanded of it (`Expr.natural?`), and that is what it is proven to have in
the end.  If nothing is wrong with the unit, a name that is bound to such a node has just this kind
as well (`Analysis.every_node_typed`).

## Strategy

A node directly inside another one is asked for by the other one, or evaluated along with it
(`Expr.asks_of_bound`, `Expr.inherits_or_asks`).  Every request is met in the end, and whatever the
evaluation of a node leads to is handled once the node has been left (`Explored`).  So the nodes
that have been left are closed under going inside, and the unit itself has been left
(`Expr.reaches_nodes`).

A node of one kind evaluates nothing else, and so it is never met again while it is evaluated.
Hence it is calm, and a name that is bound to it agrees with it.
-/

namespace FrameLang

/-! ## Nodes and what is inside them -/

namespace Expr

/-- The kind of an expression that has one kind whatever is demanded of it. -/
def natural? : Expr → Option Kind
  | literal _ value => some value.kind
  | frame _ _ | instantiate _ _ _ => some .frame
  | template _ _ => some .template
  | _ => none

theorem way_of_natural? {expr : Expr} {kind : Kind} (h : expr.natural? = some kind) :
    expr.way = .leaf {kind} := by
  cases expr with
  | literal | frame | template | instantiate => rw [way, Option.some.inj h]
  | _ => cases h

/-- A value that a name is to be bound to is asked for. -/
theorem asks_of_bound {expr inner : Expr} (h : inner ∈ expr.bound) :
    .definition inner.id ∈ expr.asks := by
  cases expr with
  | frame mark attributes | template mark attributes | letIn mark attributes body =>
      obtain ⟨item, hitem, rfl⟩ := List.mem_map.mp h
      exact List.mem_map.mpr ⟨item, hitem, rfl⟩
  | instantiate mark base overrides =>
      obtain ⟨item, hitem, rfl⟩ := List.mem_map.mp h
      exact List.mem_cons_of_mem _ (List.mem_map.mpr ⟨item, hitem, rfl⟩)
  | _ => cases h

/-- Any other node inside an expression is evaluated along with it, or it is asked for. -/
theorem inherits_or_asks {expr inner : Expr} (h : inner ∈ expr.unbound) :
    inner.id ∈ expr.way.heirs ∨ ∃ kinds, .node inner.id kinds ∈ expr.asks := by
  cases expr with
  | literal | lookup | frame | template => cases h
  | coalesce mark primary fallback =>
      refine .inl ?_
      rcases List.mem_pair.mp h with rfl | rfl <;> simp [way, Way.heirs]
  | conditional mark condition consequent alternative =>
      rcases List.mem_cons.mp h with rfl | h
      · exact .inr ⟨{.bool}, List.mem_cons_self⟩
      · refine .inl ?_
        rcases List.mem_pair.mp h with rfl | rfl <;> simp [way, Way.heirs]
  | arithmetic mark operator left right =>
      refine .inl ?_
      rcases List.mem_pair.mp h with rfl | rfl <;> simp [way, Way.heirs]
  | enforce mark value kinds =>
      obtain rfl := List.mem_singleton.mp h
      exact .inl List.mem_cons_self
  | instantiate mark base overrides =>
      obtain rfl := List.mem_singleton.mp h
      exact .inr ⟨{.template}, List.mem_cons_self⟩
  | letIn mark bindings body | hide mark names body =>
      obtain rfl := List.mem_singleton.mp h
      exact .inl List.mem_cons_self

section Reaching

variable {reached : NodeId → Prop}

mutual

/-- Whatever goes from every node to the nodes directly inside it gets to all nodes. -/
theorem reaches_nodes (expr : Expr)
    (hinside : ∀ node ∈ expr.nodes, reached node.id →
      ∀ inner ∈ node.bound ++ node.unbound, reached inner.id)
    (h : reached expr.id) : ∀ node ∈ expr.nodes, reached node.id := by
  have hdirect := hinside expr expr.mem_nodes_self h
  match expr with
  | .literal .. | .lookup .. => simpa [nodes] using h
  | .coalesce mark first second | .arithmetic mark _ first second =>
      have hfirst := reaches_nodes first (fun node hnode => hinside node (by simp [nodes, hnode]))
        (hdirect first (by simp [unbound]))
      have hsecond := reaches_nodes second (fun node hnode => hinside node (by simp [nodes, hnode]))
        (hdirect second (by simp [unbound]))
      simp only [nodes, List.forall_mem_cons, List.forall_mem_append]
      exact ⟨h, hfirst, hsecond⟩
  | .conditional mark condition consequent alternative =>
      have hcondition := reaches_nodes condition
        (fun node hnode => hinside node (by simp [nodes, hnode]))
        (hdirect condition (by simp [unbound]))
      have hconsequent := reaches_nodes consequent
        (fun node hnode => hinside node (by simp [nodes, hnode]))
        (hdirect consequent (by simp [unbound]))
      have halternative := reaches_nodes alternative
        (fun node hnode => hinside node (by simp [nodes, hnode]))
        (hdirect alternative (by simp [unbound]))
      simp only [nodes, List.forall_mem_cons, List.forall_mem_append]
      exact ⟨h, ⟨hcondition, hconsequent⟩, halternative⟩
  | .enforce mark inner _ | .hide mark _ inner =>
      have hinner := reaches_nodes inner (fun node hnode => hinside node (by simp [nodes, hnode]))
        (hdirect inner (by simp [unbound]))
      simp only [nodes, List.forall_mem_cons]
      exact ⟨h, hinner⟩
  | .frame mark attributes | .template mark attributes =>
      have hvalues := reaches_nodesOfAttributes attributes
        (fun node hnode => hinside node (by simp [nodes, hnode]))
        fun item hitem => hdirect item.value (by simp [bound, List.mem_map_of_mem hitem])
      simp only [nodes, List.forall_mem_cons]
      exact ⟨h, hvalues⟩
  | .letIn mark bindings body =>
      have hvalues := reaches_nodesOfAttributes bindings
        (fun node hnode => hinside node (by simp [nodes, hnode]))
        fun item hitem => hdirect item.value (by simp [bound, List.mem_map_of_mem hitem])
      have hbody := reaches_nodes body (fun node hnode => hinside node (by simp [nodes, hnode]))
        (hdirect body (by simp [unbound]))
      simp only [nodes, List.forall_mem_cons, List.forall_mem_append]
      exact ⟨h, hvalues, hbody⟩
  | .instantiate mark base overrides =>
      have hbase := reaches_nodes base (fun node hnode => hinside node (by simp [nodes, hnode]))
        (hdirect base (by simp [unbound]))
      have hvalues := reaches_nodesOfOverrides overrides
        (fun node hnode => hinside node (by simp [nodes, hnode]))
        fun item hitem => hdirect item.value (by simp [bound, List.mem_map_of_mem hitem])
      simp only [nodes, List.forall_mem_cons, List.forall_mem_append]
      exact ⟨h, hbase, hvalues⟩

theorem reaches_nodesOfAttributes (attributes : List (Attribute Expr))
    (hinside : ∀ node ∈ nodesOfAttributes attributes, reached node.id →
      ∀ inner ∈ node.bound ++ node.unbound, reached inner.id)
    (h : ∀ item ∈ attributes, reached item.value.id) :
    ∀ node ∈ nodesOfAttributes attributes, reached node.id := by
  match attributes with
  | [] => simp [nodesOfAttributes]
  | ⟨_, _, value⟩ :: rest =>
      rw [List.forall_mem_cons] at h
      have hvalue := reaches_nodes value
        (fun node hnode => hinside node (by simp [nodesOfAttributes, hnode])) h.1
      have hrest := reaches_nodesOfAttributes rest
        (fun node hnode => hinside node (by simp [nodesOfAttributes, hnode])) h.2
      simp only [nodesOfAttributes, List.forall_mem_append]
      exact ⟨hvalue, hrest⟩

theorem reaches_nodesOfOverrides (overrides : List (Override Expr))
    (hinside : ∀ node ∈ nodesOfOverrides overrides, reached node.id →
      ∀ inner ∈ node.bound ++ node.unbound, reached inner.id)
    (h : ∀ item ∈ overrides, reached item.value.id) :
    ∀ node ∈ nodesOfOverrides overrides, reached node.id := by
  match overrides with
  | [] => simp [nodesOfOverrides]
  | ⟨_, _, _, value⟩ :: rest =>
      rw [List.forall_mem_cons] at h
      have hvalue := reaches_nodes value
        (fun node hnode => hinside node (by simp [nodesOfOverrides, hnode])) h.1
      have hrest := reaches_nodesOfOverrides rest
        (fun node hnode => hinside node (by simp [nodesOfOverrides, hnode])) h.2
      simp only [nodesOfOverrides, List.forall_mem_append]
      exact ⟨hvalue, hrest⟩

end

end Reaching

end Expr

/-! ## Events -/

theorem mem_trace_of_active {events : List Event} {node : NodeId} (h : node ∈ activeIn events) :
    ∃ demanded, .entered node demanded ∈ events := by
  induction events with
  | nil => cases h
  | cons event earlier ih =>
      rw [activeIn_cons] at h
      have hrest : node ∈ activeIn earlier →
          ∃ demanded, .entered node demanded ∈ event :: earlier := fun hnode => (ih hnode).imp fun _ => List.mem_cons_of_mem _
      cases event with
      | entered other demanded =>
          rcases List.mem_cons.mp h with rfl | hnode
          · exact ⟨demanded, List.mem_cons_self⟩
          · exact hrest hnode
      | left other proven => exact hrest (List.mem_of_mem_erase h)
      | _ => exact hrest h

/-- An evaluation that has come to its end has begun. -/
theorem Disciplined.entered {events : List Event} (h : Disciplined events) {node : NodeId}
    {proven : Kinds} (hleft : .left node proven ∈ events) :
    ∃ demanded, .entered node demanded ∈ events := by
  obtain ⟨later, earlier, rfl⟩ := List.append_of_mem hleft
  have hhead : (activeIn earlier).head? = some node :=
    h _ earlier (List.suffix_append later _)
  obtain ⟨demanded, hentered⟩ := mem_trace_of_active (List.mem_of_head? hhead)
  exact ⟨demanded, List.mem_append_right _ (List.mem_cons_of_mem _ hentered)⟩

theorem mem_trace_of_searched {events : List Event} {node : NodeId}
    (h : node ∈ searchedIn events) : .searching node ∈ events := by
  induction events with
  | nil => cases h
  | cons event earlier ih =>
      rw [searchedIn_cons] at h
      cases event with
      | searching other =>
          rcases List.mem_cons.mp h with rfl | hnode
          · exact List.mem_cons_self
          · exact List.mem_cons_of_mem _ (ih hnode)
      | resolved other name => exact List.mem_cons_of_mem _ (ih (List.mem_of_mem_erase h))
      | _ => exact List.mem_cons_of_mem _ (ih h)

/-- True when an event says that a node was left, was met while it was evaluated, or was searched
for its name. -/
def Event.Concerns (node : NodeId) : Event → Prop
  | left other _ | reentered other | searching other => other = node
  | _ => False

theorem Event.Nominal.not_concerns {event : Event} (h : event.Nominal) (node : NodeId) :
    ¬ event.Concerns node := by
  cases event with
  | asked | answered | defining => exact id
  | _ => cases h

/-- The node that is evaluated for a request. -/
def Ask.target : Ask → NodeId
  | node id _ => id
  | definition value => value

namespace Evaluation

open ScopeM

/-! ## Requests -/

section Requests

variable {layout : Layout} {session : Session Progress}

/-- A request on behalf of a name leads to the definition of the name. -/
def Listed (layout : Layout) (session : Session Progress) : Prop :=
  ∀ value name, layout.bindings.find? value = some name →
    name.index < session.tree.names.size ∧ session.tree.definition? name = some value

theorem Listed.evolves {after : Session Progress} (h : Listed layout session)
    (hformed : session.tree.Formed) (hevolves : session.Evolves after) : Listed layout after := by
  intro value name hname
  obtain ⟨hsize, hdefinition⟩ := h value name hname
  exact ⟨Nat.lt_of_lt_of_le hsize hevolves.grows.size_names,
    (hevolves.grows.definition? hformed hsize).trans hdefinition⟩

theorem listed_start (unit : Expr) (file : String) (topLevel : Bool) :
    Listed (Survey.ofUnit unit file topLevel).defs (start (Survey.ofUnit unit file topLevel)) := by
  intro value name hname
  obtain ⟨kinds, horigin⟩ := (Survey.kept_ofUnit unit file topLevel).bound value name hname
  exact ⟨lt_size_of_binding unit file topLevel hname, ScopeTree.definition?_of_bound horigin⟩

theorem answer_handles (h : Explored layout [] [] session) (hlisted : Listed layout session)
    (ask : Ask) : Handled layout [] ((answer layout ask).run session).2 ask.target := by
  have hdefiner := definer_explores layout
  cases ask with
  | node id kinds => exact (hdefiner id kinds false session h).reached
  | definition value =>
      unfold answer
      dsimp only
      cases hname : layout.bindings.find? value with
      | none => exact (hdefiner value .any false session h).reached
      | some name =>
          obtain ⟨hsize, -⟩ := hlisted value name hname
          have hensured := ensure_explores hdefiner name .any false h hsize
          have hstill := hlisted.evolves h.formed hensured.advances.evolves
          exact hensured.reached value (hstill value name hname).2

/-- What has been requested is handled from then on. -/
theorem answers_handle (asks : List Ask) (h : Explored layout [] [] session)
    (hlisted : Listed layout session) :
    ∀ ask ∈ asks, Handled layout [] ((asks.forM (answer layout)).run session).2 ask.target := by
  induction asks generalizing session with
  | nil => simp
  | cons ask rest ih =>
      obtain ⟨hexplored, hadvances⟩ := answer_explores h (fun value name hname =>
        (hlisted value name hname).1) ask
      have hstill := hlisted.evolves h.formed hadvances.evolves
      have hrest := (forM_explores rest hexplored fun other _ after hafter hother =>
        answer_explores hother (fun value name hname =>
          ((hstill.evolves hexplored.formed hafter.evolves) value name hname).1) other).2
      rw [run_forM_cons, List.forall_mem_cons]
      exact ⟨(answer_handles h hlisted ask).evolves hrest.evolves, ih hexplored hstill⟩

end Requests

/-! ## Whole units -/

section Units

variable {unit : Expr} {file : String} {topLevel : Bool}

/-- Whatever a unit asks for is handled in the end. -/
theorem finished_handles {demand : Demand}
    (hdemand : demand ∈ (Survey.ofUnit unit file topLevel).defs.demands) {ask : Ask}
    (hask : ask ∈ demand.asks) :
    Handled (Survey.ofUnit unit file topLevel).defs []
      (finished (Survey.ofUnit unit file topLevel)) ask.target := by
  obtain ⟨hclassified, hadvances⟩ := classified_explored unit file topLevel
  have hlisted := (listed_start unit file topLevel).evolves
    (start_explored unit file topLevel).formed hadvances.evolves
  have hrequest : ask ∈ requests (Survey.ofUnit unit file topLevel) :=
    List.mem_flatMap.mpr ⟨demand, (mem_byPriority _).mpr hdemand, hask⟩
  have hanswered := answers_handle _ hclassified hlisted ask hrequest
  have hexplored := (forM_explores (requests (Survey.ofUnit unit file topLevel)) hclassified
    fun other _ after hafter hother => answer_explores hother (fun value name hname =>
      ((hlisted.evolves hclassified.formed hafter.evolves) value name hname).1) other).1
  rw [finished_eq_checked]
  exact hanswered.evolves (checkMasks_plain hexplored.formed).evolves

theorem finished_nested (hdistinct : unit.Distinct) (file : String) (topLevel : Bool) :
    Nested [] [] (finished (Survey.ofUnit unit file topLevel)) := by
  rw [finished_eq_checked]
  exact checkMasks_nested ((orderly_ofUnit hdistinct file topLevel).answered _ (List.prefix_refl _))

/-- A node that is handled once nothing is under evaluation has been left. -/
theorem left_of_handled (hdistinct : unit.Distinct) {session : Session Progress} {node : NodeId}
    (hnode : node ∈ unit.nodes.map Expr.id)
    (h : Handled (Survey.ofUnit unit file topLevel).defs [] session node) : session.Left node := by
  rcases h with hleft | hactive | hnone
  · exact hleft
  · cases hactive
  · have hplaced : ((Survey.ofUnit unit file topLevel).defs.nodes.find? node).isSome :=
      placed_of_mem hdistinct hnode
    rw [hnone] at hplaced
    cases hplaced

/-- What a node asks for has been left in the end. -/
theorem left_of_asks (hdistinct : unit.Distinct) (file : String) (topLevel : Bool) {node : Expr}
    (hnode : node ∈ unit.nodes) {ask : Ask} (hask : ask ∈ node.asks)
    (htarget : ask.target ∈ unit.nodes.map Expr.id) :
    (finished (Survey.ofUnit unit file topLevel)).Left ask.target := by
  obtain ⟨scope, hdemand⟩ : ∃ scope, ⟨scope, node.asks⟩ ∈
      (Survey.ofUnit unit file topLevel).defs.demands :=
    Survey.asked_ofUnit hnode (List.ne_nil_of_mem hask)
  exact left_of_handled hdistinct htarget (finished_handles hdemand hask)

theorem left_unit (hdistinct : unit.Distinct) (file : String) (topLevel : Bool) :
    (finished (Survey.ofUnit unit file topLevel)).Left unit.id := by
  have hdemand : ⟨Survey.root, [.node unit.id .any]⟩ ∈
      (Survey.ofUnit unit file topLevel).defs.demands :=
    List.mem_append_right _ List.mem_cons_self
  exact left_of_handled hdistinct unit.id_mem_nodes (finished_handles hdemand List.mem_cons_self)

/-- Every node of a unit has been left in the end. -/
theorem left_finished (hdistinct : unit.Distinct) (file : String) (topLevel : Bool) :
    ∀ node ∈ unit.nodes, (finished (Survey.ofUnit unit file topLevel)).Left node.id := by
  obtain ⟨hexplored, -⟩ := finished_explored unit file topLevel
  refine unit.reaches_nodes (fun node hnode hleft inner hinner => ?_)
    (left_unit hdistinct file topLevel)
  rcases List.mem_append.mp hinner with hbound | hunbound
  · have hmem := unit.valuesOf_subset
      (List.mem_flatMap.mpr ⟨node, hnode, List.mem_map_of_mem hbound⟩)
    exact left_of_asks hdistinct file topLevel hnode (Expr.asks_of_bound hbound) hmem
  · have hmem := unit.innersOf_subset
      (List.mem_flatMap.mpr ⟨node, hnode, List.mem_map_of_mem hunbound⟩)
    rcases Expr.inherits_or_asks hunbound with hheir | ⟨kinds, hask⟩
    · obtain ⟨scope, hplaced⟩ : ∃ scope, (Survey.ofUnit unit file topLevel).defs.nodes.find?
          node.id = some ⟨node, scope⟩ := Survey.placed_ofUnit hdistinct hnode
      exact left_of_handled hdistinct hmem
        ((hexplored.closed node.id _ hleft hplaced).heirs inner.id hheir)
    · exact left_of_asks hdistinct file topLevel hnode hask hmem

end Units

/-! ## Nodes of one kind -/

/-- A node of one kind is proven to have just this kind once it has been left.  It is not met again
while it is evaluated, and it is not a lookup whose name is searched. -/
structure Fixed (node : NodeId) (kind : Kind) (session : Session Progress) : Prop where
  kinds : session.defs.kindsOf node = .any ∨ session.defs.kindsOf node = {kind}
  left : session.Left node → session.defs.kindsOf node = {kind}
  unmet : .reentered node ∉ session.trace
  unsearched : .searching node ∉ session.trace

section Fixed

variable {layout : Layout} {node : NodeId} {kind : Kind} {session : Session Progress}

/-- Nothing is proven of the node, and no event concerns it. -/
theorem Fixed.later {after : Session Progress} (h : Fixed node kind session)
    (hkinds : after.defs.kindsOf node = session.defs.kindsOf node)
    (hevents : ∀ event ∈ after.trace, event ∈ session.trace ∨ ¬ event.Concerns node) :
    Fixed node kind after where
  kinds := hkinds ▸ h.kinds
  left := fun ⟨proven, hproven⟩ =>
    hkinds ▸ h.left ⟨proven, (hevents _ hproven).resolve_right (not_not.mpr rfl)⟩
  unmet hmet := h.unmet ((hevents _ hmet).resolve_right (not_not.mpr rfl))
  unsearched hsearched := h.unsearched ((hevents _ hsearched).resolve_right (not_not.mpr rfl))

theorem Fixed.noting (h : Fixed node kind session) {event : Event}
    (hevent : ¬ event.Concerns node) : Fixed node kind (session.noting event) :=
  h.later rfl fun _ hother => (List.mem_cons.mp hother).elim (fun heq => .inr (heq ▸ hevent)) .inl

theorem fixed_indifferent (node : NodeId) (kind : Kind) :
    Session.Indifferent (Fixed node kind) := by
  intro before after hdefs _ _ htrace h
  refine h.later (by rw [hdefs]) fun other hother => ?_
  rcases htrace with htrace | ⟨event, hevent, htrace⟩
  · exact .inl (htrace ▸ hother)
  · rw [htrace] at hother
    exact (List.mem_cons.mp hother).elim (fun heq => .inr (heq ▸ hevent.not_concerns node)) .inl

/-- The evaluation of the node comes to its end. -/
theorem Fixed.leaving (h : Fixed node kind session) :
    Fixed node kind (leaving session node {kind}) := by
  have hproven : (Evaluation.leaving session node {kind}).defs.kindsOf node = {kind} := by
    refine (Progress.kindsOf_prove ..).trans ((if_pos rfl).trans ?_)
    refine Kinds.narrow_of_subset (Kinds.subset_iff.mpr fun other hother => ?_)
      (Kinds.ne_empty_iff.mpr ⟨kind, Kinds.mem_singleton.mpr rfl⟩)
    rcases h.kinds with hkinds | hkinds
    · rw [hkinds]
      exact Kinds.mem_any
    · rwa [hkinds]
  refine ⟨.inr hproven, fun _ => hproven, fun hmet => ?_, fun hsearched => ?_⟩
  · exact h.unmet ((List.mem_cons.mp hmet).resolve_left (by simp))
  · exact h.unsearched ((List.mem_cons.mp hsearched).resolve_left (by simp))

/-- The evaluation of another node comes to its end. -/
theorem Fixed.leaving_other (h : Fixed node kind session) {other : NodeId} (hother : other ≠ node)
    (proven : Kinds) : Fixed node kind (Evaluation.leaving session other proven) := by
  have hproved : Fixed node kind (session.withDefs (session.defs.prove other proven)) :=
    h.later ((Progress.kindsOf_prove ..).trans (if_neg hother)) fun _ => .inl
  exact hproved.noting hother

theorem Fixed.ensureIntrinsic (h : Fixed node kind session) (scope : ScopeId) (id : NodeId)
    (demanded : Kinds) (unbox : Bool) (span : Span) :
    Fixed node kind ((ScopeM.ensureIntrinsic scope id demanded unbox span).run session).2 :=
  h.later (by rw [defs_ensureIntrinsic]) fun _ hevent =>
    .inl (by rwa [trace_ensureIntrinsic] at hevent)

/-- A lookup is another node than one of one kind. -/
theorem resolve_fixed {during : Definer Progress} (hduring : during.Maintains (Fixed node kind))
    (searching : List NodeId) (scope : ScopeId) (mark : Mark) (hmark : mark.id ≠ node)
    (path : List String) (h : Fixed node kind session) :
    Fixed node kind ((resolve during searching scope mark path).run session).2 := by
  rw [run_resolve]
  cases session.defs.resolved.find? mark.id with
  | some name => exact h
  | none =>
      dsimp only
      split
      · exact h
      · have hsearching : Fixed node kind (session.noting (.searching mark.id)) := h.noting hmark
        have hfound := lookup_maintains (fixed_indifferent node kind) hduring scope path mark.span
          hsearching
        generalize (lookup during scope path mark.span).run _ = found at hfound ⊢
        have hresolved : Fixed node kind
            (found.2.withDefs (found.2.defs.resolve mark.id found.1)) := hfound.later rfl fun _ => .inl
        exact hresolved.noting id

/-- Another node is evaluated without the node being left, met or searched, if this holds of the
evaluations inside it. -/
theorem rule_fixed {again during : Definer Progress} (hagain : again.Maintains (Fixed node kind))
    (hduring : during.Maintains (Fixed node kind)) (searching : List NodeId) (scope : ScopeId)
    {expr : Expr} (hother : expr.id ≠ node) (demanded : Kinds) (unbox : Bool)
    (h : Fixed node kind session) :
    Fixed node kind
      ((rule again during searching scope demanded unbox expr).run session).2 := by
  have hindifferent := fixed_indifferent node kind
  refine rule_preserves (fun session error h => ?_) (fun session demanded unbox h => ?_) hagain
    (fun path session h => ?_) demanded unbox h
  · exact reporting_maintains hindifferent h _
  · exact h.ensureIntrinsic ..
  · have hfound := resolve_fixed hduring searching scope expr.mark hother path h
    exact ⟨hfound, fun name _ demanded unbox =>
      ensure_maintains hindifferent hagain name demanded unbox hfound⟩

theorem evaluate_fixed
    (hplaced : ∀ id placement, layout.nodes.find? id = some placement → placement.expr.id = id)
    {expr : Expr} {scope : ScopeId} (hnode : layout.nodes.find? node = some ⟨expr, scope⟩)
    (hway : expr.way = .leaf {kind}) (depth : Nat) {active : List NodeId} (hidle : node ∉ active)
    (searching : List NodeId) :
    (evaluate layout depth active searching).Maintains (Fixed node kind) := by
  induction depth generalizing active searching with
  | zero => exact fun _ _ _ _ h => h
  | succ depth ih =>
      intro id demanded unbox session h
      rw [run_evaluate_succ]
      cases hplacement : layout.nodes.find? id with
      | none => exact h
      | some placement =>
          dsimp only
          split
          · next hactive => exact h.noting fun heq => hidle (heq ▸ hactive)
          · have hentered : Fixed node kind (session.noting (.entered id demanded)) :=
              h.noting fun hfalse => hfalse
            by_cases hid : id = node
            · obtain rfl := hid
              obtain rfl := Option.some.inj (hnode.symm.trans hplacement)
              rw [run_rule]
              simp only [hway]
              rw [run_leaf_fst, run_leaf]
              split
              · exact hentered.leaving
              · exact (reporting_maintains (fixed_indifferent id kind) hentered _).leaving
            · have hinside : node ∉ id :: active := List.not_mem_cons_of_ne_of_not_mem
                (fun heq => hid heq.symm) hidle
              have hother : placement.expr.id ≠ node := hplaced id placement hplacement ▸ hid
              exact (rule_fixed (ih hinside searching) (ih hinside (id :: searching)) searching
                placement.scope hother demanded unbox hentered).leaving_other hid _

section Steps

variable (hplaced : ∀ id placement, layout.nodes.find? id = some placement → placement.expr.id = id)
  {expr : Expr} {scope : ScopeId} (hnode : layout.nodes.find? node = some ⟨expr, scope⟩)
  (hway : expr.way = .leaf {kind})
include hplaced hnode hway

theorem classify_fixed (id : NodeId) (h : Fixed node kind session) :
    Fixed node kind ((classify layout id).run session).2 := by
  rw [run_classify]
  cases hplacement : layout.nodes.find? id with
  | none => exact h
  | some placement =>
      dsimp only
      split
      · next path hlookup =>
        refine resolve_fixed (evaluate_fixed hplaced hnode hway _ List.not_mem_nil [id]) []
          placement.scope _ (fun heq => ?_) path h
        obtain rfl := (hplaced id placement hplacement).symm.trans heq
        obtain rfl := Option.some.inj (hnode.symm.trans hplacement)
        cases hway.symm.trans hlookup
      · exact h

theorem answer_fixed (ask : Ask) (h : Fixed node kind session) :
    Fixed node kind ((answer layout ask).run session).2 := by
  have hdefiner : (definer layout).Maintains (Fixed node kind) :=
    evaluate_fixed hplaced hnode hway _ List.not_mem_nil []
  cases ask with
  | node id kinds => exact hdefiner id kinds false session h
  | definition value =>
      unfold answer
      dsimp only
      split
      · exact ensure_maintains (fixed_indifferent node kind) hdefiner _ .any false h
      · exact hdefiner value .any false session h

end Steps

end Fixed

section Units

variable {unit : Expr} {expr : Expr} {kind : Kind}

theorem fixed_finished (hdistinct : unit.Distinct) (file : String) (topLevel : Bool)
    (hexpr : expr ∈ unit.nodes) (hway : expr.way = .leaf {kind}) :
    Fixed expr.id kind (finished (Survey.ofUnit unit file topLevel)) := by
  have hplaced : ∀ id placement, (Survey.ofUnit unit file topLevel).defs.nodes.find? id =
      some placement → placement.expr.id = id := fun id placement h => (Survey.found_ofUnit h).2.1
  obtain ⟨scope, hnode⟩ : ∃ scope, (Survey.ofUnit unit file topLevel).defs.nodes.find? expr.id =
      some ⟨expr, scope⟩ := Survey.placed_ofUnit hdistinct hexpr
  have hstart : Fixed expr.id kind (start (Survey.ofUnit unit file topLevel)) := by
    have htrace : (start (Survey.ofUnit unit file topLevel)).trace = [] :=
      (Survey.kept_ofUnit unit file topLevel).untraced
    refine ⟨.inl rfl, fun ⟨proven, hproven⟩ => ?_, by simp [htrace], by simp [htrace]⟩
    rw [htrace] at hproven
    cases hproven
  have hanswered := answeredIn_preserves (Fixed expr.id kind)
    (requests (Survey.ofUnit unit file topLevel))
    (fun id _ h => classify_fixed hplaced hnode hway id h)
    (fun ask _ h => answer_fixed hplaced hnode hway ask h) hstart
  obtain ⟨reporter, hfinished⟩ := checkMasks_reports
    (answeredIn (Survey.ofUnit unit file topLevel) (requests (Survey.ofUnit unit file topLevel)))
  rw [finished_eq_checked, hfinished]
  exact reporting_maintains (fixed_indifferent expr.id kind) hanswered reporter

/-- A node of one kind takes its kinds from no other node, so it is calm. -/
theorem Fixed.calm {layout : Layout} {scope : ScopeId} {final : Session Progress}
    (h : Fixed expr.id kind final) (hnode : layout.nodes.find? expr.id = some ⟨expr, scope⟩)
    (hway : expr.way = .leaf {kind}) : Calm layout final expr.id := by
  intro other hpath
  rcases hpath.cases_head with rfl | ⟨next, hdefers, -⟩
  · refine ⟨h.unmet, fun ⟨demanded, earlier, hsuffix, hsearched⟩ => ?_⟩
    have hmem := List.mem_cons_of_mem (.entered expr.id demanded) (mem_trace_of_searched hsearched)
    exact h.unsearched (hsuffix.subset hmem)
  · have hmem := hdefers.mem_trusted hnode (by simp [hway])
    rw [hway] at hmem
    cases hmem

/-- A name that is bound to a node of one kind has this kind. -/
theorem known_of_fixed (hdistinct : unit.Distinct) {file : String} {topLevel : Bool}
    (hclean : (finished (Survey.ofUnit unit file topLevel)).reporter.report.totalErrors = 0)
    (hexpr : expr ∈ unit.nodes) (hway : expr.way = .leaf {kind}) {name : NameId}
    (hbound : ((finished (Survey.ofUnit unit file topLevel)).tree.name name).origin.definition? =
      some expr.id) :
    ((finished (Survey.ofUnit unit file topLevel)).tree.name name).origin.known = {kind} := by
  have hfixed := fixed_finished hdistinct file topLevel hexpr hway
  have hkinds := hfixed.left (left_finished hdistinct file topLevel expr hexpr)
  obtain ⟨scope, hnode⟩ : ∃ scope, (Survey.ofUnit unit file topLevel).defs.nodes.find? expr.id =
      some ⟨expr, scope⟩ := Survey.placed_ofUnit hdistinct hexpr
  have hbond := bond_finished hdistinct hclean (hfixed.calm hnode hway) hbound
  have hkind : kind ∈ yields (finished (Survey.ofUnit unit file topLevel)) expr := by
    rw [yields, hway]
    exact Kinds.mem_singleton.mpr rfl
  have hvalue : ¬ Operation (Survey.ofUnit unit file topLevel).defs expr.id := by
    rintro ⟨placement, left, right, hplaced, harithmetic⟩
    obtain rfl := Option.some.inj (hnode.symm.trans hplaced)
    cases hway.symm.trans harithmetic
  have hanswered := answered_tight hbond (start_standing unit file topLevel)
    (tied_finished hdistinct hbound) (.inl ⟨kind, .self hnode hkind⟩) (absurd · hvalue)
  have hplain := checkMasks_plain hanswered.formed
  obtain ⟨reporter, hfinished⟩ := checkMasks_reports
    (answeredIn (Survey.ofUnit unit file topLevel) (requests (Survey.ofUnit unit file topLevel)))
  rw [← finished_eq_checked] at hplain hfinished
  have htight := (hanswered.holds (.of_eq hplain.evolves hplain.resolved)).eq
  generalize answeredIn (Survey.ofUnit unit file topLevel)
    (requests (Survey.ofUnit unit file topLevel)) = answered at hfinished htight
  rw [hfinished] at hkinds ⊢
  exact htight.trans hkinds

end Units

end Evaluation

/-! ## The outcome -/

namespace Analysis

/-- Every node is typed: the evaluation of each node begins and comes to its end.  Whatever goes
wrong elsewhere, a literal, a frame, a template or an instantiation is proven to have its one kind.
If nothing is wrong with the unit, so has a name that is bound to it. -/
theorem every_node_typed (unit : Expr) (hdistinct : unit.Distinct) (file : String)
    (options : Options) :
    (∀ expr ∈ unit.nodes,
      (∃ demanded, .entered expr.id demanded ∈ (analyse unit file options).trace) ∧
        ∃ proven, .left expr.id proven ∈ (analyse unit file options).trace) ∧
      (∀ expr ∈ unit.nodes, ∀ kind, expr.natural? = some kind →
        (analyse unit file options).kindsOf? expr.id = some {kind}) ∧
      ((analyse unit file options).success = true →
        ∀ expr ∈ unit.nodes, ∀ kind, expr.natural? = some kind → ∀ name kinds,
          ((analyse unit file options).tree.name name).origin = .bound expr.id kinds →
            (analyse unit file options).possible name = {kind}) := by
  refine ⟨fun expr hexpr => ?_, fun expr hexpr kind hkind => ?_,
    fun hsuccess expr hexpr kind hkind name kinds hbound => ?_⟩
  · rw [trace_analyse]
    obtain ⟨proven, hleft⟩ := Evaluation.left_finished hdistinct file options.topLevel expr hexpr
    have hnested := Evaluation.finished_nested hdistinct file options.topLevel
    exact ⟨hnested.disciplined.entered hleft, proven, hleft⟩
  · have hfixed := Evaluation.fixed_finished hdistinct file options.topLevel hexpr
      (Expr.way_of_natural? hkind)
    obtain ⟨scope, hnode⟩ : ∃ scope, (Survey.ofUnit unit file options.topLevel).defs.nodes.find?
        expr.id = some ⟨expr, scope⟩ := Survey.placed_ofUnit hdistinct hexpr
    rw [kindsOf?, layout_analyse, progress_analyse, hnode]
    exact congrArg some
      (hfixed.left (Evaluation.left_finished hdistinct file options.topLevel expr hexpr))
  · have hclean := totalErrors_eq_zero hsuccess
    rw [tree_analyse] at hbound
    rw [possible, tree_analyse, ScopeTree.possible_eq_known (by rw [hbound]; rfl)]
    exact Evaluation.known_of_fixed hdistinct hclean hexpr (Expr.way_of_natural? hkind)
      (by rw [hbound]; rfl)

/-- A template and an instantiation of it, beside a number. -/
def instantiated : Expr :=
  let mark (id : Nat) : Mark := ⟨⟨id⟩, .nowhere⟩
  .frame (mark 4) [
    .of "t" (.template (mark 0) []),
    .of "i" (.instantiate (mark 2) (.lookup (mark 1) ["t"]) []),
    .of "n" (.literal (mark 3) (.int 1))]

/-- The instantiation is a frame, and so is its name. -/
theorem every_node_typed_instantiated :
    instantiated.Distinct ∧ (analyse instantiated "unit" default).success = true ∧
      ((analyse instantiated "unit" default).tree.name ⟨1⟩).origin = .bound ⟨2⟩ {.frame} ∧
        (analyse instantiated "unit" default).kindsOf? ⟨2⟩ = some {.frame} ∧
          (analyse instantiated "unit" default).possible ⟨1⟩ = {.frame} := by
  have hdistinct : instantiated.Distinct := by decide
  have hsuccess : (analyse instantiated "unit" default).success = true := by decide +kernel
  have hbound : ((analyse instantiated "unit" default).tree.name ⟨1⟩).origin =
      .bound ⟨2⟩ {.frame} := by decide +kernel
  have hmem : .instantiate ⟨⟨2⟩, .nowhere⟩ (.lookup ⟨⟨1⟩, .nowhere⟩ ["t"]) [] ∈
      instantiated.nodes := by simp [instantiated, Expr.nodes, Expr.nodesOfAttributes, Attribute.of]
  obtain ⟨-, hkinds, hpossible⟩ := every_node_typed instantiated hdistinct "unit" default
  exact ⟨hdistinct, hsuccess, hbound, hkinds _ hmem _ rfl,
    hpossible hsuccess _ hmem _ rfl _ _ hbound⟩

end Analysis

end FrameLang
