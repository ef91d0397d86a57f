import FrameLang.Proofs.Analysis.Evaluation
import FrameLang.Proofs.Analysis.Survey
import Mathlib.Data.List.Nodup

/-!
# Names and the values that they are bound to

A frame, a template, a `Let` or an instantiation binds names to values.  In a unit whose nodes
have distinct identities no two names are bound to one value, and a value that a name is bound
to is nothing else: it is not the unit, and no operand, branch, condition, base or body
(`Expr.Distinct.value`).  So there are just two ways in which its evaluation can begin.  It is
requested on behalf of the name; and an operation requests itself, because somebody has to
(`Survey.Tied`).

The two requests are noted in this order: a node requests itself while it is laid out, and the
values are requested once all of them are (`Survey.Awaited`).

## Strategy

Where a node can be is a matter of counting: each node but the outermost one is directly
inside of exactly one node (`Expr.count_nodes`).

`Survey.Binds` says what a part of the walk has done to names, nodes and demands.  Two parts
can be put together if they lay out different nodes, and if the second one does not ask for what
the first one has bound (`Survey.Binds.trans`).
-/

namespace FrameLang

/-! ## Nodes and values -/

namespace Expr

/-- The values directly inside an expression that names are to be bound to. -/
def bound : Expr → List Expr
  | frame _ attributes | template _ attributes | letIn _ attributes _ =>
      attributes.map Attribute.value
  | instantiate _ _ overrides => overrides.map Override.value
  | _ => []

/-- The other nodes directly inside an expression. -/
def unbound : Expr → List Expr
  | literal _ _ | lookup _ _ | frame _ _ | template _ _ => []
  | coalesce _ primary fallback => [primary, fallback]
  | conditional _ condition consequent alternative => [condition, consequent, alternative]
  | arithmetic _ _ left right => [left, right]
  | enforce _ value _ => [value]
  | instantiate _ base _ => [base]
  | letIn _ _ body | hide _ _ body => [body]

/-- The values in some nodes that names are to be bound to. -/
def valuesOf (nodes : List Expr) : List NodeId := nodes.flatMap fun node => node.bound.map id

/-- The nodes directly inside some nodes that no names are to be bound to. -/
def innersOf (nodes : List Expr) : List NodeId := nodes.flatMap fun node => node.unbound.map id

section Counting

variable (node : NodeId)

/-- How often a node occurs directly inside some nodes. -/
def occurrences (nodes : List Expr) : Nat :=
  (valuesOf nodes).count node + (innersOf nodes).count node

theorem occurrences_cons (expr : Expr) (nodes : List Expr) :
    occurrences node (expr :: nodes) = (expr.bound.map id).count node +
      (expr.unbound.map id).count node + occurrences node nodes := by
  simp only [occurrences, valuesOf, innersOf, List.flatMap_cons, List.count_append]
  omega

theorem occurrences_append (nodes nodes' : List Expr) :
    occurrences node (nodes ++ nodes') = occurrences node nodes + occurrences node nodes' := by
  simp only [occurrences, valuesOf, innersOf, List.flatMap_append, List.count_append]
  omega

mutual

/-- Every node but the outermost one is directly inside of exactly one node, and there it is
listed once. -/
theorem count_nodes (expr : Expr) :
    (expr.nodes.map id).count node = [expr.id].count node + occurrences node expr.nodes := by
  match expr with
  | .literal .. | .lookup .. => rfl
  | .coalesce mark first second | .arithmetic mark _ first second =>
      have hfirst := count_nodes first
      have hsecond := count_nodes second
      simp only [nodes, bound, unbound, List.map_cons, List.map_append, List.map_nil,
        occurrences_cons, occurrences_append, List.count_append, List.count_cons,
        List.count_nil] at hfirst hsecond ⊢
      omega
  | .conditional mark condition consequent alternative =>
      have hcondition := count_nodes condition
      have hconsequent := count_nodes consequent
      have halternative := count_nodes alternative
      simp only [nodes, bound, unbound, List.map_cons, List.map_append, List.map_nil,
        occurrences_cons, occurrences_append, List.count_append, List.count_cons,
        List.count_nil] at hcondition hconsequent halternative ⊢
      omega
  | .enforce mark inner _ | .hide mark _ inner =>
      have hinner := count_nodes inner
      simp only [nodes, bound, unbound, List.map_cons, List.map_nil, occurrences_cons,
        List.count_cons, List.count_nil] at hinner ⊢
      omega
  | .frame mark attributes | .template mark attributes =>
      have hattributes := count_nodesOfAttributes attributes
      simp only [nodes, bound, unbound, List.map_cons, List.map_nil, List.map_map,
        occurrences_cons, List.count_cons, List.count_nil] at hattributes ⊢
      omega
  | .letIn mark bindings body =>
      have hbindings := count_nodesOfAttributes bindings
      have hbody := count_nodes body
      simp only [nodes, bound, unbound, List.map_cons, List.map_append, List.map_nil,
        List.map_map, occurrences_cons, occurrences_append, List.count_append, List.count_cons,
        List.count_nil] at hbindings hbody ⊢
      omega
  | .instantiate mark base overrides =>
      have hbase := count_nodes base
      have hoverrides := count_nodesOfOverrides overrides
      simp only [nodes, bound, unbound, List.map_cons, List.map_append, List.map_nil,
        List.map_map, occurrences_cons, occurrences_append, List.count_append, List.count_cons,
        List.count_nil] at hbase hoverrides ⊢
      omega

theorem count_nodesOfAttributes (attributes : List (Attribute Expr)) :
    ((nodesOfAttributes attributes).map id).count node =
      (attributes.map (id ∘ Attribute.value)).count node +
        occurrences node (nodesOfAttributes attributes) := by
  match attributes with
  | [] => rfl
  | ⟨_, _, value⟩ :: rest =>
      have hvalue := count_nodes value
      have hrest := count_nodesOfAttributes rest
      simp only [nodesOfAttributes, List.map_cons, List.map_append, occurrences_append,
        List.count_append, List.count_cons, List.count_nil, Function.comp_apply] at hvalue hrest ⊢
      omega

theorem count_nodesOfOverrides (overrides : List (Override Expr)) :
    ((nodesOfOverrides overrides).map id).count node =
      (overrides.map (id ∘ Override.value)).count node +
        occurrences node (nodesOfOverrides overrides) := by
  match overrides with
  | [] => rfl
  | ⟨_, _, _, value⟩ :: rest =>
      have hvalue := count_nodes value
      have hrest := count_nodesOfOverrides rest
      simp only [nodesOfOverrides, List.map_cons, List.map_append, occurrences_append,
        List.count_append, List.count_cons, List.count_nil, Function.comp_apply] at hvalue hrest ⊢
      omega

end

end Counting

theorem id_mem_nodes (expr : Expr) : expr.id ∈ expr.nodes.map id := by
  cases expr <;> exact List.mem_cons_self

theorem valuesOf_append (nodes nodes' : List Expr) :
    valuesOf (nodes ++ nodes') = valuesOf nodes ++ valuesOf nodes' := List.flatMap_append

theorem innersOf_append (nodes nodes' : List Expr) :
    innersOf (nodes ++ nodes') = innersOf nodes ++ innersOf nodes' := List.flatMap_append

theorem valuesOf_instantiate (mark : Mark) (base : Expr) (overrides : List (Override Expr)) :
    valuesOf (instantiate mark base overrides).nodes = overrides.map (id ∘ Override.value) ++
      (valuesOf base.nodes ++ valuesOf (nodesOfOverrides overrides)) := by
  rw [nodes, ← valuesOf_append, valuesOf, List.flatMap_cons, bound, List.map_map]
  rfl

theorem innersOf_instantiate (mark : Mark) (base : Expr) (overrides : List (Override Expr)) :
    innersOf (instantiate mark base overrides).nodes =
      base.id :: (innersOf base.nodes ++ innersOf (nodesOfOverrides overrides)) :=
  congrArg (base.id :: ·) (innersOf_append ..)

theorem valuesOf_subset (expr : Expr) : valuesOf expr.nodes ⊆ expr.nodes.map id := by
  intro node hnode
  have hcount := count_nodes node expr
  have hpos := List.count_pos_iff.mpr hnode
  rw [occurrences] at hcount
  exact List.count_pos_iff.mp (by omega)

theorem innersOf_subset (expr : Expr) : innersOf expr.nodes ⊆ expr.nodes.map id := by
  intro node hnode
  have hcount := count_nodes node expr
  have hpos := List.count_pos_iff.mpr hnode
  rw [occurrences] at hcount
  exact List.count_pos_iff.mp (by omega)

/-- Two parts of an expression are distinct from each other and from the expression itself. -/
theorem Distinct.parts {expr : Expr} (h : expr.Distinct) {first second : List Expr}
    (hnodes : expr.nodes = expr :: (first ++ second)) :
    expr.id ∉ (first ++ second).map id ∧ (first.map id).Nodup ∧ (second.map id).Nodup ∧
      (first.map id).Disjoint (second.map id) := by
  rw [Distinct, hnodes] at h
  obtain ⟨hself, hparts⟩ := List.nodup_cons.mp h
  rw [List.map_append, List.nodup_append'] at hparts
  exact ⟨hself, hparts⟩

/-- A value that a name is to be bound to is nowhere else in the unit. -/
theorem Distinct.value {unit : Expr} (h : unit.Distinct) {value : NodeId}
    (hvalue : value ∈ valuesOf unit.nodes) : value ≠ unit.id ∧ value ∉ innersOf unit.nodes := by
  have hcount := count_nodes value unit
  have hpos := List.count_pos_iff.mpr hvalue
  have hle := List.nodup_iff_count_le_one.mp h value
  rw [hcount, occurrences] at hle
  refine ⟨fun heq => ?_, fun hinner => ?_⟩
  · have hself : [unit.id].count value = 1 := by rw [heq]; exact List.count_singleton_self
    omega
  · have hpos' := List.count_pos_iff.mpr hinner
    omega

theorem heirs_subset_unbound (expr : Expr) : expr.way.heirs ⊆ expr.unbound.map id := by
  cases expr <;> simp [way, Way.heirs, unbound]

end Expr

namespace Survey

open ScopeM

/-! ## What a part of the walk does -/

/-- The value of a name is requested for the name in some scope, and it is not asked for apart from
the name any more. -/
def Awaited (value : NodeId) (scope : ScopeId) (demands : List Demand) : Prop :=
  ∃ earlier demand later, demands = earlier ++ demand :: later ∧ demand.scope = scope ∧
    .definition value ∈ demand.asks ∧
      ∀ other ∈ demand :: later, ∀ kinds, .node value kinds ∉ other.asks

/-- A part of the walk has bound names to some values, has placed some nodes, and makes some
demands.  What they ask of nodes, the nodes ask of themselves, but for some nodes. -/
structure Binds (values placed asked : List NodeId) (demands : List Demand)
    (before after : Session Layout) : Prop where
  within : values ⊆ placed
  size : before.tree.names.size ≤ after.tree.names.size
  name : ∀ id, id.index < before.tree.names.size → after.tree.name id = before.tree.name id
  nodes : ∀ node, node ∉ placed → after.defs.nodes.find? node = before.defs.nodes.find? node
  bindings : ∀ value, value ∉ values →
    after.defs.bindings.find? value = before.defs.bindings.find? value
  queued : after.defs.demands = before.defs.demands ++ demands
  asked : ∀ demand ∈ demands, ∀ node kinds, .node node kinds ∈ demand.asks → node ∉ asked →
    node ∈ placed ∧ kinds = .any ∧ ∃ expr, .node node .any ∈ expr.asks ∧
      after.defs.nodes.find? node = some ⟨expr, demand.scope⟩
  named : ∀ name value kinds, before.tree.names.size ≤ name.index →
    (after.tree.name name).origin = .bound value kinds →
      value ∈ values ∧ kinds = .any ∧ after.defs.bindings.find? value = some name ∧
        ∃ scope, (after.tree.name name).scope? = some scope ∧ Awaited value scope demands

/-- A step of the walk that binds names to some values, places some nodes and asks for some. -/
def Binding (values placed asked : List NodeId) (step : ScopeM Layout Unit) : Prop :=
  ∀ session, ∃ demands, Binds values placed asked demands session (step.run session).2

variable {values values' placed placed' asked asked' : List NodeId} {demands demands' : List Demand}
  {first second third session : Session Layout} {step step' : ScopeM Layout Unit} {scope : ScopeId}

theorem Awaited.append {value : NodeId} (h : Awaited value scope demands)
    (hlater : ∀ demand ∈ demands', ∀ kinds, .node value kinds ∉ demand.asks) :
    Awaited value scope (demands ++ demands') := by
  obtain ⟨earlier, demand, later, rfl, hscope, hasks, hnot⟩ := h
  refine ⟨earlier, demand, later ++ demands', by simp, hscope, hasks, fun other hother => ?_⟩
  rw [← List.cons_append] at hother
  rcases List.mem_append.mp hother with hother | hother
  · exact hnot other hother
  · exact hlater other hother

theorem Awaited.prepend {value : NodeId} (h : Awaited value scope demands')
    (demands : List Demand) : Awaited value scope (demands ++ demands') := by
  obtain ⟨earlier, demand, later, rfl, hscope, hasks, hnot⟩ := h
  exact ⟨demands ++ earlier, demand, later, by simp, hscope, hasks, hnot⟩

theorem Binds.trans (h : Binds values placed asked demands first second)
    (h' : Binds values' placed' asked' demands' second third)
    (hplaced : placed.Disjoint placed') (hasked : values.Disjoint asked') :
    Binds (values ++ values') (placed ++ placed') (asked ++ asked') (demands ++ demands')
      first third where
  within := List.append_subset.mpr
    ⟨List.subset_append_of_subset_left _ h.within, List.subset_append_of_subset_right _ h'.within⟩
  size := Nat.le_trans h.size h'.size
  name id hid := (h'.name id (Nat.lt_of_lt_of_le hid h.size)).trans (h.name id hid)
  nodes node hnode := by
    rw [List.mem_append, not_or] at hnode
    exact (h'.nodes node hnode.2).trans (h.nodes node hnode.1)
  bindings value hvalue := by
    rw [List.mem_append, not_or] at hvalue
    exact (h'.bindings value hvalue.2).trans (h.bindings value hvalue.1)
  queued := by rw [h'.queued, h.queued, List.append_assoc]
  asked demand hdemand node kinds hnode hnot := by
    rw [List.mem_append, not_or] at hnot
    rcases List.mem_append.mp hdemand with hdemand | hdemand
    · obtain ⟨hmem, hkinds, expr, hasks, hexpr⟩ := h.asked demand hdemand node kinds hnode hnot.1
      exact ⟨List.mem_append_left _ hmem, hkinds, expr, hasks,
        (h'.nodes node (hplaced hmem)).trans hexpr⟩
    · exact (h'.asked demand hdemand node kinds hnode hnot.2).imp_left (List.mem_append_right _)
  named name value kinds hnew horigin := by
    by_cases hname : name.index < second.tree.names.size
    · rw [h'.name name hname] at horigin ⊢
      obtain ⟨hmem, hkinds, hbinding, scope, hscope, hawaited⟩ :=
        h.named name value kinds hnew horigin
      have hmem' : value ∉ values' := fun hmem' => hplaced (h.within hmem) (h'.within hmem')
      refine ⟨List.mem_append_left _ hmem, hkinds, (h'.bindings value hmem').trans hbinding, scope,
        hscope, hawaited.append fun demand hdemand kinds hnode => ?_⟩
      exact hplaced (h.within hmem) (h'.asked demand hdemand value kinds hnode (hasked hmem)).1
    · obtain ⟨hmem, hkinds, hbinding, scope, hscope, hawaited⟩ :=
        h'.named name value kinds (Nat.le_of_not_lt hname) horigin
      exact ⟨List.mem_append_right _ hmem, hkinds, hbinding, scope, hscope,
        hawaited.prepend demands⟩

/-- The order of values and nodes does not matter. -/
theorem Binds.congr (h : Binds values placed asked demands first second)
    (hvalues : ∀ value, value ∈ values' ↔ value ∈ values)
    (hplaced : ∀ node, node ∈ placed' ↔ node ∈ placed) (hasked : asked ⊆ asked') :
    Binds values' placed' asked' demands first second where
  within value hvalue := (hplaced value).mpr (h.within ((hvalues value).mp hvalue))
  size := h.size
  name := h.name
  nodes node hnode := h.nodes node fun hmem => hnode ((hplaced node).mpr hmem)
  bindings value hvalue := h.bindings value fun hmem => hvalue ((hvalues value).mpr hmem)
  queued := h.queued
  asked demand hdemand node kinds hnode hnot :=
    (h.asked demand hdemand node kinds hnode fun hmem => hnot (hasked hmem)).imp_left
      (hplaced node).mpr
  named name value kinds hnew horigin :=
    (h.named name value kinds hnew horigin).imp_left (hvalues value).mpr

/-- A step that leaves the names, the bindings and the demands alone. -/
theorem Binds.of_same (hnames : second.tree.names = first.tree.names)
    (hnodes : ∀ node, node ∉ placed →
      second.defs.nodes.find? node = first.defs.nodes.find? node)
    (hbindings : second.defs.bindings = first.defs.bindings)
    (hdemands : second.defs.demands = first.defs.demands) :
    Binds [] placed [] [] first second where
  within := List.nil_subset _
  size := Nat.le_of_eq (by rw [hnames])
  name id _ := by rw [ScopeTree.name, ScopeTree.name, hnames]
  nodes := hnodes
  bindings _ _ := by rw [hbindings]
  queued := by rw [hdemands, List.append_nil]
  asked _ h := by cases h
  named name value kinds hnew horigin := by
    rw [← hnames] at hnew
    rw [ScopeTree.name_of_size_le hnew] at horigin
    cases horigin

/-- A step that leaves the names and the layout alone. -/
theorem Binds.refl (hnames : second.tree.names = first.tree.names)
    (hdefs : second.defs = first.defs) : Binds [] [] [] [] first second :=
  .of_same hnames (fun _ _ => by rw [hdefs]) (by rw [hdefs]) (by rw [hdefs])

/-! ## The steps of the walk -/

/-- Some values have been bound to names of a scope. -/
structure Declares (scope : ScopeId) (values : List NodeId) (before after : Session Layout) :
    Prop where
  size : before.tree.names.size ≤ after.tree.names.size
  name : ∀ id, id.index < before.tree.names.size → after.tree.name id = before.tree.name id
  nodes : after.defs.nodes = before.defs.nodes
  demands : after.defs.demands = before.defs.demands
  bindings : ∀ value, value ∉ values →
    after.defs.bindings.find? value = before.defs.bindings.find? value
  named : ∀ name value kinds, before.tree.names.size ≤ name.index →
    (after.tree.name name).origin = .bound value kinds →
      value ∈ values ∧ kinds = .any ∧ after.defs.bindings.find? value = some name ∧
        (after.tree.name name).scope? = some scope

theorem Declares.trans (h : Declares scope values first second)
    (h' : Declares scope values' second third) (hvalues : values.Disjoint values') :
    Declares scope (values ++ values') first third where
  size := Nat.le_trans h.size h'.size
  name id hid := (h'.name id (Nat.lt_of_lt_of_le hid h.size)).trans (h.name id hid)
  nodes := h'.nodes.trans h.nodes
  demands := h'.demands.trans h.demands
  bindings value hvalue := by
    rw [List.mem_append, not_or] at hvalue
    exact (h'.bindings value hvalue.2).trans (h.bindings value hvalue.1)
  named name value kinds hnew horigin := by
    by_cases hname : name.index < second.tree.names.size
    · rw [h'.name name hname] at horigin ⊢
      obtain ⟨hmem, hkinds, hbinding, hscope⟩ := h.named name value kinds hnew horigin
      exact ⟨List.mem_append_left _ hmem, hkinds,
        (h'.bindings value (hvalues hmem)).trans hbinding, hscope⟩
    · exact (h'.named name value kinds (Nat.le_of_not_lt hname) horigin).imp_left
        (List.mem_append_right _)

theorem Declares.of_same (values : List NodeId) (hnames : second.tree.names = first.tree.names)
    (hdefs : second.defs = first.defs) : Declares scope values first second where
  size := Nat.le_of_eq (by rw [hnames])
  name id _ := by rw [ScopeTree.name, ScopeTree.name, hnames]
  nodes := by rw [hdefs]
  demands := by rw [hdefs]
  bindings _ _ := by rw [hdefs]
  named name value kinds hnew horigin := by
    rw [← hnames] at hnew
    rw [ScopeTree.name_of_size_le hnew] at horigin
    cases horigin

theorem declares_bind (scope : ScopeId) (name : String) (value : NodeId) (span : Span)
    (session : Session Layout) :
    Declares scope [value] session ((bind scope name value span).run session).2 := by
  unfold bind ScopeTree.bind?
  rw [run_bind, run_tree]
  dsimp only
  cases session.tree.meaning? scope name with
  | some entry => exact .of_same [value] rfl rfl
  | none =>
      have hname : ∀ id, (session.tree.define scope name (.bound value .any)).name id =
          (session.tree.addName (.new name (some scope) (.bound value .any))).name id :=
        fun _ => rfl
      have hfind : ∀ other, (session.defs.bind value session.tree.nextName).bindings.find? other =
          if value = other then some session.tree.nextName
          else session.defs.bindings.find? other := fun other => Table.find?_insert ..
      refine ⟨?_, fun id hid => ?_, rfl, rfl, fun other hother => ?_,
        fun id other kinds hnew horigin => ?_⟩
      · have hsize : (session.tree.define scope name (.bound value .any)).names.size =
            session.tree.names.size + 1 := ScopeTree.size_names_addName ..
        exact Nat.le_of_lt (hsize ▸ Nat.lt_succ_self _)
      · exact (hname id).trans (ScopeTree.name_addName_of_lt _ _ hid)
      · refine (hfind other).trans (if_neg ?_)
        rintro rfl
        exact hother (List.mem_singleton_self _)
      · have horigin : ((session.tree.define scope name (.bound value .any)).name id).origin =
            .bound other kinds := horigin
        have hrecord := (hname id).trans (ScopeTree.name_addName ..)
        rw [hrecord] at horigin
        split at horigin
        · next heq =>
          obtain ⟨rfl, hkinds⟩ := Origin.bound.inj horigin
          refine ⟨List.mem_singleton_self _, hkinds.symm,
            (hfind value).trans ((if_pos rfl).trans ?_), ?_⟩
          · rw [heq]
          · change ((session.tree.define scope name (.bound value .any)).name id).scope? =
              some scope
            rw [hrecord, if_pos heq]
            rfl
        · rw [ScopeTree.name_of_size_le hnew] at horigin
          cases horigin

theorem declares_forM {γ : Type} (scope : ScopeId) (name : γ → String) (value : γ → NodeId)
    (span : γ → Span) (items : List γ) (hnodup : (items.map value).Nodup)
    (session : Session Layout) :
    Declares scope (items.map value) session
      ((items.forM fun item => bind scope (name item) (value item) (span item)).run session).2 := by
  induction items generalizing session with
  | nil => exact .of_same [] rfl rfl
  | cons item rest ih =>
      rw [List.map_cons, List.nodup_cons] at hnodup
      rw [run_forM_cons]
      refine (declares_bind scope (name item) (value item) (span item) session).trans
        (ih hnodup.2 _) ?_
      rw [List.singleton_disjoint]
      exact hnodup.1

/-- A demand is noted after everything else. -/
theorem Binds.ask (h : Binds values placed asked demands first second) (scope : ScopeId)
    {asks : List Ask} (hasks : ∀ node kinds, .node node kinds ∈ asks → node ∉ values ∧
      (node ∉ asked' → node ∈ placed ∧ kinds = .any ∧ ∃ expr, .node node .any ∈ expr.asks ∧
        second.defs.nodes.find? node = some ⟨expr, scope⟩)) :
    Binds values placed (asked ++ asked') (demands ++ [⟨scope, asks⟩]) first
      ((Survey.ask scope asks).run second).2 where
  within := h.within
  size := h.size
  name := h.name
  nodes := h.nodes
  bindings := h.bindings
  queued := by
    have hlast : ((Survey.ask scope asks).run second).2.defs.demands =
        second.defs.demands ++ [⟨scope, asks⟩] := rfl
    rw [hlast, h.queued, List.append_assoc]
  asked demand hdemand node kinds hnode hnot := by
    rw [List.mem_append, not_or] at hnot
    rcases List.mem_append.mp hdemand with hdemand | hdemand
    · exact h.asked demand hdemand node kinds hnode hnot.1
    · obtain rfl := List.mem_singleton.mp hdemand
      exact (hasks node kinds hnode).2 hnot.2
  named name value kinds hnew horigin := by
    obtain ⟨hmem, hkinds, hbinding, scope, hscope, hawaited⟩ :=
      h.named name value kinds hnew horigin
    refine ⟨hmem, hkinds, hbinding, scope, hscope,
      hawaited.append fun demand hdemand kinds hnode => ?_⟩
    obtain rfl := List.mem_singleton.mp hdemand
    exact (hasks value kinds hnode).1 hmem

namespace Binding

theorem andThen (h : Binding values placed asked step) (h' : Binding values' placed' asked' step')
    (hplaced : placed.Disjoint placed') (hasked : values.Disjoint asked') :
    Binding (values ++ values') (placed ++ placed') (asked ++ asked')
      (step >>= fun _ => step') := by
  intro session
  obtain ⟨demands, hfirst⟩ := h session
  obtain ⟨demands', hsecond⟩ := h' (step.run session).2
  exact ⟨demands ++ demands', hfirst.trans hsecond hplaced hasked⟩

theorem congr (h : Binding values placed asked step)
    (hvalues : ∀ value, value ∈ values' ↔ value ∈ values)
    (hplaced : ∀ node, node ∈ placed' ↔ node ∈ placed) (hasked : asked ⊆ asked') :
    Binding values' placed' asked' step := by
  intro session
  obtain ⟨demands, hbinds⟩ := h session
  exact ⟨demands, hbinds.congr hvalues hplaced hasked⟩

/-- A step that leaves the names and the layout alone. -/
theorem idle (hnames : ∀ session, (step.run session).2.tree.names = session.tree.names)
    (hdefs : ∀ session, (step.run session).2.defs = session.defs) : Binding [] [] [] step :=
  fun session => ⟨[], .refl (hnames session) (hdefs session)⟩

theorem place (expr : Expr) (scope : ScopeId) :
    Binding [] [expr.id] [] (modifyDefs fun layout => layout.place expr scope) := by
  refine fun session => ⟨[], .of_same rfl (fun node hnode => ?_) rfl rfl⟩
  refine (Table.find?_insert ..).trans (if_neg ?_)
  rintro rfl
  exact hnode (List.mem_singleton_self _)

theorem addLookup (id : NodeId) :
    Binding [] [] [] (modifyDefs fun layout => layout.addLookup id) :=
  fun _ => ⟨[], .of_same rfl (fun _ _ => rfl) rfl rfl⟩

theorem nameReplaced (scope : ScopeId) (name : String) :
    Binding [] [] [] (modifyTree fun tree => tree.nameReplaced scope name) := by
  intro session
  have hname : ∀ id, (session.tree.nameReplaced scope name).name id =
      (session.tree.addName (.new name (some scope) (.replaced .any))).name id := fun _ => rfl
  refine ⟨[], List.nil_subset _, ?_, fun id hid => ?_, fun _ _ => rfl, fun _ _ => rfl, ?_,
    fun _ h => (by cases h), fun id value kinds hnew horigin => ?_⟩
  · have hsize : (session.tree.nameReplaced scope name).names.size =
        session.tree.names.size + 1 := ScopeTree.size_names_addName ..
    exact Nat.le_of_lt (hsize ▸ Nat.lt_succ_self _)
  · exact (hname id).trans (ScopeTree.name_addName_of_lt _ _ hid)
  · exact (List.append_nil _).symm
  · have horigin : ((session.tree.nameReplaced scope name).name id).origin = .bound value kinds :=
      horigin
    rw [hname, ScopeTree.name_addName] at horigin
    split at horigin
    · cases horigin
    · rw [ScopeTree.name_of_size_le hnew] at horigin
      cases horigin

theorem forbidAll (scope : ScopeId) (names : List String) :
    Binding [] [] [] (names.forM fun name => modifyTree fun tree => tree.forbid scope name) := by
  induction names with
  | nil => exact .idle (fun _ => rfl) fun _ => rfl
  | cons name rest ih =>
      have hfirst : Binding [] [] []
          (modifyTree fun tree => tree.forbid scope name : ScopeM Layout Unit) :=
        .idle (fun _ => rfl) fun _ => rfl
      exact hfirst.andThen ih (List.disjoint_nil_left _) (List.disjoint_nil_left _)

theorem ask (scope : ScopeId) {asks : List Ask}
    (hasks : ∀ node kinds, .node node kinds ∈ asks → node ∈ asked) :
    Binding [] [] asked (Survey.ask scope asks) := by
  intro session
  have hidle : Binds [] [] [] [] session session := .refl rfl rfl
  exact ⟨[⟨scope, asks⟩], hidle.ask scope fun node kinds hnode =>
    ⟨List.not_mem_nil, fun hnot => absurd (hasks node kinds hnode) hnot⟩⟩

/-- A node that is placed and, in the end, asks for itself. -/
theorem own (h : Binding values placed asked step) {expr : Expr} (hnot : expr.id ∉ placed)
    (hasks : expr.asks = [.node expr.id .any]) (scope : ScopeId) :
    Binding values (expr.id :: placed) asked
      ((modifyDefs fun layout => layout.place expr scope) >>= fun _ =>
        step >>= fun _ => Survey.ask scope [.node expr.id .any]) := by
  intro session
  obtain ⟨earlier, hplace⟩ := Binding.place expr scope session
  obtain ⟨demands, hbinds⟩ := h (session.withDefs (session.defs.place expr scope))
  have hall := hplace.trans hbinds (List.singleton_disjoint.mpr hnot) (List.disjoint_nil_left _)
  have hself : ∀ node kinds, .node node kinds ∈ [Ask.node expr.id .any] →
      node ∉ [] ++ values ∧ (node ∉ [] → node ∈ [expr.id] ++ placed ∧ kinds = .any ∧
        ∃ inner, .node node .any ∈ inner.asks ∧
          (step.run (session.withDefs (session.defs.place expr scope))).2.defs.nodes.find? node =
            some ⟨inner, scope⟩) := by
    intro node kinds hnode
    obtain ⟨rfl, rfl⟩ := Ask.node.inj (List.mem_singleton.mp hnode)
    refine ⟨fun hvalue => hnot (hbinds.within hvalue), fun _ => ⟨List.mem_cons_self, rfl, expr,
      hasks ▸ hnode, (hbinds.nodes expr.id hnot).trans ?_⟩⟩
    exact (Table.find?_insert ..).trans (if_pos rfl)
  have hasked := hall.ask scope hself
  rw [List.append_nil] at hasked
  exact ⟨_, hasked⟩

/-- Whatever is done in a scope that has just been opened. -/
theorem opened {opening : ScopeM Layout ScopeId} {body : ScopeId → ScopeM Layout Unit}
    (hnames : ∀ session, (opening.run session).2.tree.names = session.tree.names)
    (hdefs : ∀ session, (opening.run session).2.defs.nodes = session.defs.nodes ∧
      (opening.run session).2.defs.bindings = session.defs.bindings ∧
        (opening.run session).2.defs.demands = session.defs.demands)
    (hbody : ∀ inner, Binding values placed asked (body inner)) :
    Binding values placed asked (opening >>= body) := by
  intro session
  obtain ⟨hnodes, hbindings, hdemands⟩ := hdefs session
  obtain ⟨demands, hbinds⟩ := hbody (opening.run session).1 (opening.run session).2
  have hopened : Binds [] [] [] [] session (opening.run session).2 :=
    .of_same (hnames session) (fun _ _ => by rw [hnodes]) hbindings hdemands
  exact ⟨[] ++ demands,
    hopened.trans hbinds (List.disjoint_nil_left _) (List.disjoint_nil_left _)⟩

theorem openFor (mark : Mark) (outer : ScopeId) (delegates : Bool)
    {body : ScopeId → ScopeM Layout Unit}
    (hbody : ∀ inner, Binding values placed asked (body inner)) :
    Binding values placed asked (Survey.openFor mark outer delegates >>= body) :=
  opened (fun _ => rfl) (fun _ => ⟨rfl, rfl, rfl⟩) hbody

/-- Values are bound to names of a scope, then they are laid out, and finally they are requested. -/
theorem declare {γ : Type} (h : Binding values placed asked step) (scope : ScopeId)
    (name : γ → String) (value : γ → NodeId) (span : γ → Span) {items : List γ}
    (hnodup : (items.map value).Nodup) (hwithin : items.map value ⊆ placed)
    (hvalues : (items.map value).Disjoint values) {asks : List Ask}
    (hrequested : ∀ item ∈ items, .definition (value item) ∈ asks)
    (hasks : ∀ node kinds, .node node kinds ∈ asks →
      node ∈ asked' ∧ node ∉ items.map value ∧ node ∉ values) :
    Binding (items.map value ++ values) placed (asked ++ asked')
      ((items.forM fun item => bind scope (name item) (value item) (span item)) >>= fun _ =>
        step >>= fun _ => Survey.ask scope asks) := by
  intro session
  have hdeclares := declares_forM scope name value span items hnodup session
  rw [run_bind, run_bind]
  generalize (items.forM fun item => bind scope (name item) (value item) (span item)).run session =
    declared at hdeclares ⊢
  obtain ⟨demands, hbinds⟩ := h declared.2
  have hasked := hbinds.ask scope fun node kinds hnode => by
    obtain ⟨hasked, -, hnot⟩ := hasks node kinds hnode
    exact ⟨hnot, fun hnot => absurd hasked hnot⟩
  refine ⟨demands ++ [⟨scope, asks⟩], List.append_subset.mpr ⟨hwithin, hasked.within⟩,
    Nat.le_trans hdeclares.size hasked.size, fun id hid => ?_, fun node hnode => ?_,
    fun other hother => ?_, ?_, hasked.asked, fun id other kinds hnew horigin => ?_⟩
  · exact (hasked.name id (Nat.lt_of_lt_of_le hid hdeclares.size)).trans (hdeclares.name id hid)
  · rw [hasked.nodes node hnode, hdeclares.nodes]
  · rw [List.mem_append, not_or] at hother
    exact (hasked.bindings other hother.2).trans (hdeclares.bindings other hother.1)
  · rw [hasked.queued, hdeclares.demands]
  · by_cases hold : id.index < declared.2.tree.names.size
    · have hname := hasked.name id hold
      rw [hname] at horigin ⊢
      obtain ⟨hmem, hkinds, hbinding, hscope⟩ := hdeclares.named id other kinds hnew horigin
      refine ⟨List.mem_append_left _ hmem, hkinds,
        (hasked.bindings other (hvalues hmem)).trans hbinding, scope, hscope, demands,
        ⟨scope, asks⟩, [], rfl, rfl, ?_, fun demand hdemand kinds hnode => ?_⟩
      · obtain ⟨item, hitem, rfl⟩ := List.mem_map.mp hmem
        exact hrequested item hitem
      · obtain rfl := List.mem_singleton.mp hdemand
        exact (hasks other kinds hnode).2.1 hmem
    · obtain ⟨hmem, hrest⟩ := hasked.named id other kinds (Nat.le_of_not_lt hold) horigin
      exact ⟨List.mem_append_right _ hmem, hrest⟩

/-- Nodes are requested after everything else. -/
theorem asking (h : Binding values placed asked step) (scope : ScopeId) {asks : List Ask}
    (hasks : ∀ node kinds, .node node kinds ∈ asks → node ∈ asked')
    (hvalues : values.Disjoint asked') :
    Binding values placed (asked ++ asked') (step >>= fun _ => Survey.ask scope asks) := by
  have hall := h.andThen (.ask scope hasks) (List.disjoint_nil_right _) hvalues
  rwa [List.append_nil, List.append_nil] at hall

end Binding

/-! ## The walk -/

/-- A step of the walk that lays out some nodes. -/
structure Walks (nodes : List Expr) (step : ScopeM Layout Unit) : Prop where
  inners : Expr.innersOf nodes ⊆ nodes.map Expr.id
  binding : Binding (Expr.valuesOf nodes) (nodes.map Expr.id) (Expr.innersOf nodes) step

section Walks

variable {nodes nodes' : List Expr} {expr : Expr}

theorem Walks.within (h : Walks nodes step) : Expr.valuesOf nodes ⊆ nodes.map Expr.id := by
  obtain ⟨demands, hbinds⟩ := h.binding ⟨∅, .new "", [], ∅⟩
  exact hbinds.within

theorem Walks.andThen (h : Walks nodes step) (h' : Walks nodes' step')
    (hdisjoint : (nodes.map Expr.id).Disjoint (nodes'.map Expr.id)) :
    Walks (nodes ++ nodes') (step >>= fun _ => step') := by
  have hasked : (Expr.valuesOf nodes).Disjoint (Expr.innersOf nodes') :=
    List.disjoint_of_subset_left h.within (List.disjoint_of_subset_right h'.inners hdisjoint)
  have hall := h.binding.andThen h'.binding hdisjoint hasked
  rw [← List.map_append, ← Expr.valuesOf_append, ← Expr.innersOf_append] at hall
  refine ⟨?_, hall⟩
  rw [Expr.innersOf_append, List.map_append]
  exact List.append_subset.mpr ⟨List.subset_append_of_subset_left _ h.inners,
    List.subset_append_of_subset_right _ h'.inners⟩

/-- A node is placed before the nodes inside it. -/
theorem Binding.under (h : Binding values (nodes.map Expr.id) asked step)
    (hnodes : expr.nodes = expr :: nodes)
    (hvalues : ∀ value, value ∈ Expr.valuesOf (expr :: nodes) ↔ value ∈ values)
    (hnot : expr.id ∉ nodes.map Expr.id) (hasked : asked ⊆ Expr.innersOf (expr :: nodes))
    (scope : ScopeId) :
    Walks expr.nodes
      ((modifyDefs fun layout => layout.place expr scope) >>= fun _ => step) := by
  have hall := (Binding.place expr scope).andThen h (List.singleton_disjoint.mpr hnot)
    (List.disjoint_nil_left _)
  refine ⟨expr.innersOf_subset, ?_⟩
  rw [hnodes]
  exact hall.congr hvalues (fun _ => Iff.rfl) hasked

/-- A node that asks for itself is placed before the nodes inside it. -/
theorem Walks.own (h : Walks nodes step) (hnodes : expr.nodes = expr :: nodes)
    (hbound : expr.bound = []) (hnot : expr.id ∉ nodes.map Expr.id)
    (hasks : expr.asks = [.node expr.id .any]) (scope : ScopeId) :
    Walks expr.nodes
      ((modifyDefs fun layout => layout.place expr scope) >>= fun _ =>
        step >>= fun _ => Survey.ask scope [.node expr.id .any]) := by
  refine ⟨expr.innersOf_subset, ?_⟩
  rw [hnodes]
  refine (h.binding.own hnot hasks scope).congr (fun value => ?_) (fun _ => Iff.rfl)
    (List.subset_append_right _ _)
  rw [Expr.valuesOf, List.flatMap_cons, hbound]
  rfl

theorem asks_node (node : NodeId) (kinds : Kinds) :
    ∀ other demanded, .node other demanded ∈ [Ask.node node kinds] → other ∈ [node] := by
  intro other demanded hmem
  obtain ⟨rfl, rfl⟩ := Ask.node.inj (List.mem_singleton.mp hmem)
  exact List.mem_singleton_self _

theorem asks_nil (nodes : List Expr) : ∀ node kinds, .node node kinds ∈ ([] : List Ask) →
    node ∈ ([] : List NodeId) ∧ node ∉ nodes.map Expr.id :=
  fun _ _ h => by cases h

theorem mem_valuesOf_cons {items : List NodeId} (hitems : expr.bound.map Expr.id = items)
    (value : NodeId) :
    value ∈ Expr.valuesOf (expr :: nodes) ↔ value ∈ items ++ Expr.valuesOf nodes := by
  rw [Expr.valuesOf, List.flatMap_cons, hitems]
  rfl

/-- Values are bound to names of a scope, laid out and requested; what else is asked for is not
among the nodes that are laid out. -/
theorem Walks.declare (h : Walks nodes step) (hnodup : (nodes.map Expr.id).Nodup) (scope : ScopeId)
    {γ : Type} (name : γ → String) (value : γ → NodeId) (span : γ → Span) (items : List γ)
    (hcount : ∀ node, (items.map value).count node + Expr.occurrences node nodes ≤
      (nodes.map Expr.id).count node) {others : List Ask}
    (hothers : ∀ node kinds, .node node kinds ∈ others →
      node ∈ asked ∧ node ∉ nodes.map Expr.id) :
    Binding (items.map value ++ Expr.valuesOf nodes) (nodes.map Expr.id)
      (Expr.innersOf nodes ++ asked)
      ((items.forM fun item => bind scope (name item) (value item) (span item)) >>= fun _ =>
        step >>= fun _ =>
          Survey.ask scope (others ++ items.map fun item => .definition (value item))) := by
  have hapart : (items.map value).Nodup ∧ items.map value ⊆ nodes.map Expr.id ∧
      (items.map value).Disjoint (Expr.valuesOf nodes) := by
    refine ⟨List.nodup_iff_count_le_one.mpr fun node => ?_, fun node hnode => ?_,
      fun node hnode hvalue => ?_⟩
    · have hle := List.nodup_iff_count_le_one.mp hnodup node
      have hsum := hcount node
      omega
    · have hpos := List.count_pos_iff.mpr hnode
      have hsum := hcount node
      exact List.count_pos_iff.mp (by omega)
    · have hle := List.nodup_iff_count_le_one.mp hnodup node
      have hpos := List.count_pos_iff.mpr hnode
      have hpos' := List.count_pos_iff.mpr hvalue
      have hsum := hcount node
      rw [Expr.occurrences] at hsum
      omega
  obtain ⟨hitems, hwithin, hdisjoint⟩ := hapart
  refine h.binding.declare scope name value span hitems hwithin hdisjoint (fun item hitem => ?_)
    fun node kinds hnode => ?_
  · exact List.mem_append_right _ (List.mem_map.mpr ⟨item, hitem, rfl⟩)
  · rcases List.mem_append.mp hnode with hnode | hnode
    · obtain ⟨hasked, hnot⟩ := hothers node kinds hnode
      exact ⟨hasked, fun hmem => hnot (hwithin hmem), fun hmem => hnot (h.within hmem)⟩
    · obtain ⟨item, -, heq⟩ := List.mem_map.mp hnode
      cases heq

/-- The base of an instantiation is laid out before the scope of the overrides is opened, and it is
requested from inside that scope. -/
theorem Walks.instantiate {mark : Mark} {base : Expr} {overrides : List (Override Expr)}
    (h : (Expr.instantiate mark base overrides).Distinct)
    (hbase : Walks base.nodes (walk scope base))
    (hoverrides : ∀ inner, Walks (Expr.nodesOfOverrides overrides)
      (walkOverrides inner overrides)) :
    Walks (Expr.instantiate mark base overrides).nodes
      (walk scope (.instantiate mark base overrides)) := by
  obtain ⟨hself, -, hnodup, hdisjoint⟩ := h.parts rfl
  have hvalues := Expr.valuesOf_instantiate mark base overrides
  have hinners := Expr.innersOf_instantiate mark base overrides
  have hcount := fun node => Nat.le_of_eq (Expr.count_nodesOfOverrides node overrides).symm
  have hothers : ∀ node kinds, .node node kinds ∈ [Ask.node base.id {.template}] →
      node ∈ [base.id] ∧ node ∉ (Expr.nodesOfOverrides overrides).map Expr.id := by
    intro node kinds hnode
    have hmem := asks_node base.id {.template} node kinds hnode
    obtain rfl := List.mem_singleton.mp hmem
    exact ⟨hmem, fun hmem => hdisjoint base.id_mem_nodes hmem⟩
  have hopened := Binding.openFor mark scope false fun inner =>
    (hoverrides inner).declare hnodup inner Override.name (Expr.id ∘ Override.value) Override.span
      overrides hcount hothers
  -- what is bound inside the base is no operand of an override, and not the base either
  have hbased : (Expr.valuesOf base.nodes).Disjoint
      (Expr.innersOf (Expr.nodesOfOverrides overrides) ++ [base.id]) := by
    intro value hvalue hmem
    have hbound : value ∈ Expr.valuesOf (Expr.instantiate mark base overrides).nodes := by
      simp [hvalues, hvalue]
    refine (h.value hbound).2 ?_
    simp only [hinners, List.mem_append, List.mem_cons, List.not_mem_nil, or_false] at hmem ⊢
    tauto
  have hall := hbase.binding.andThen hopened hdisjoint hbased
  rw [← List.map_append] at hall
  refine hall.under rfl (fun value => ?_) hself (fun node hnode => ?_) scope
  · rw [show Expr.valuesOf (_ :: _) = _ from hvalues, List.mem_append, List.mem_append,
      List.mem_append, List.mem_append]
    exact or_left_comm
  · rw [show Expr.innersOf (_ :: _) = _ from hinners]
    simp only [List.mem_append, List.mem_cons, List.not_mem_nil, or_false] at hnode ⊢
    tauto

end Walks

/-! ## The walk -/

mutual

/-- The walk over an expression lays out its nodes. -/
theorem walks_walk (scope : ScopeId) (expr : Expr) (h : expr.Distinct) :
    Walks expr.nodes (walk scope expr) := by
  match expr with
  | .literal mark value =>
      have hplaced := Binding.place (.literal mark value) scope
      exact ⟨List.nil_subset _, hplaced⟩
  | .lookup mark path =>
      have hplaced := (Binding.place (.lookup mark path) scope).andThen (.addLookup mark.id)
        (List.disjoint_nil_right _) (List.disjoint_nil_left _)
      exact ⟨List.nil_subset _, hplaced⟩
  | .coalesce mark primary fallback =>
      obtain ⟨hself, hprimary, hfallback, hdisjoint⟩ := h.parts rfl
      have hwalked := (walks_walk scope primary hprimary).andThen
        (walks_walk scope fallback hfallback) hdisjoint
      exact hwalked.binding.under rfl (fun _ => Iff.rfl) hself (List.subset_append_right _ _) scope
  | .conditional mark condition consequent alternative =>
      obtain ⟨hself, hfirst, halternative, hdisjoint'⟩ := h.parts rfl
      rw [List.map_append, List.nodup_append'] at hfirst
      obtain ⟨hcondition, hconsequent, hdisjoint⟩ := hfirst
      have hwalked := ((walks_walk scope condition hcondition).andThen
        (walks_walk scope consequent hconsequent) hdisjoint).andThen
          (walks_walk scope alternative halternative) hdisjoint'
      -- the condition is none of the values that names are bound to
      have hnot : condition.id ∉
          Expr.valuesOf (condition.nodes ++ consequent.nodes ++ alternative.nodes) :=
        fun hmem => (h.value hmem).2 List.mem_cons_self
      have hasked := hwalked.binding.asking scope (asks_node condition.id {.bool})
        (List.disjoint_singleton.mpr hnot)
      refine hasked.under rfl (fun _ => Iff.rfl) hself ?_ scope
      exact List.append_subset.mpr ⟨List.subset_append_right _ _,
        List.cons_subset.mpr ⟨List.mem_append_left _ List.mem_cons_self, List.nil_subset _⟩⟩
  | .arithmetic mark operator left right =>
      obtain ⟨hself, hleft, hright, hdisjoint⟩ := h.parts rfl
      have hwalked := (walks_walk scope left hleft).andThen (walks_walk scope right hright)
        hdisjoint
      exact hwalked.own rfl rfl hself rfl scope
  | .enforce mark value kinds =>
      obtain ⟨hself, hvalue⟩ := List.nodup_cons.mp h
      exact (walks_walk scope value hvalue).own rfl rfl hself rfl scope
  | .frame mark attributes | .template mark attributes =>
      obtain ⟨hself, hinner⟩ := List.nodup_cons.mp h
      have hcount := fun node => Nat.le_of_eq (Expr.count_nodesOfAttributes node attributes).symm
      have hwalked := fun inner => (walks_walkAttributes inner attributes hinner).declare hinner
        inner Attribute.name (Expr.id ∘ Attribute.value) Attribute.span attributes hcount
          (asks_nil _)
      exact (Binding.openFor mark scope false hwalked).under rfl
        (mem_valuesOf_cons (List.map_map ..)) hself
        (List.append_subset.mpr ⟨List.subset_append_right _ _, List.nil_subset _⟩) scope
  | .letIn mark bindings body =>
      obtain ⟨hself, hbindings, hbody, hdisjoint⟩ := h.parts rfl
      have hcount : ∀ node, (bindings.map (Expr.id ∘ Attribute.value)).count node +
          Expr.occurrences node (Expr.nodesOfAttributes bindings ++ body.nodes) ≤
            ((Expr.nodesOfAttributes bindings ++ body.nodes).map Expr.id).count node := by
        intro node
        have hcount := Expr.count_nodesOfAttributes node bindings
        have hcount' := Expr.count_nodes node body
        rw [Expr.occurrences_append, List.map_append, List.count_append]
        omega
      have hwalked := fun inner => ((walks_walkAttributes inner bindings hbindings).andThen
        (walks_walk inner body hbody) hdisjoint).declare (List.nodup_cons.mp h).2 inner
          Attribute.name (Expr.id ∘ Attribute.value) Attribute.span bindings hcount (asks_nil _)
      exact (Binding.openFor mark scope true hwalked).under rfl
        (mem_valuesOf_cons (List.map_map ..)) hself
        (List.append_subset.mpr ⟨List.subset_append_right _ _, List.nil_subset _⟩) scope
  | .hide mark names body =>
      obtain ⟨hself, hbody⟩ := List.nodup_cons.mp h
      have hwalked : ∀ inner, Binding (Expr.valuesOf body.nodes) (body.nodes.map Expr.id)
          (Expr.innersOf body.nodes) ((names.forM fun name =>
            modifyTree fun tree => tree.forbid inner name) >>= fun _ => walk inner body) :=
        fun inner => (Binding.forbidAll inner names).andThen (walks_walk inner body hbody).binding
          (List.disjoint_nil_left _) (List.disjoint_nil_left _)
      exact (Binding.openFor mark scope true hwalked).under rfl (fun _ => Iff.rfl) hself
        (List.subset_append_right _ _) scope
  | .instantiate mark base overrides =>
      obtain ⟨-, hbase, hoverrides, -⟩ := h.parts rfl
      exact .instantiate h (walks_walk scope base hbase)
        fun inner => walks_walkOverrides inner overrides hoverrides

theorem walks_walkAttributes (scope : ScopeId) (attributes : List (Attribute Expr))
    (h : ((Expr.nodesOfAttributes attributes).map Expr.id).Nodup) :
    Walks (Expr.nodesOfAttributes attributes) (walkAttributes scope attributes) := by
  match attributes with
  | [] => exact ⟨List.nil_subset _, .idle (fun _ => rfl) fun _ => rfl⟩
  | ⟨_, _, value⟩ :: rest =>
      rw [Expr.nodesOfAttributes, List.map_append, List.nodup_append'] at h
      obtain ⟨hvalue, hrest, hdisjoint⟩ := h
      exact (walks_walk scope value hvalue).andThen (walks_walkAttributes scope rest hrest)
        hdisjoint

theorem walks_walkOverrides (scope : ScopeId) (overrides : List (Override Expr))
    (h : ((Expr.nodesOfOverrides overrides).map Expr.id).Nodup) :
    Walks (Expr.nodesOfOverrides overrides) (walkOverrides scope overrides) := by
  match overrides with
  | [] => exact ⟨List.nil_subset _, .idle (fun _ => rfl) fun _ => rfl⟩
  | ⟨_, _, none, value⟩ :: rest =>
      rw [Expr.nodesOfOverrides, List.map_append, List.nodup_append'] at h
      obtain ⟨hvalue, hrest, hdisjoint⟩ := h
      exact (walks_walk scope value hvalue).andThen (walks_walkOverrides scope rest hrest) hdisjoint
  | ⟨_, _, some replaced, value⟩ :: rest =>
      rw [Expr.nodesOfOverrides, List.map_append, List.nodup_append'] at h
      obtain ⟨hvalue, hrest, hdisjoint⟩ := h
      have hinside := fun inner => (Binding.nameReplaced inner replaced).andThen
        (walks_walk inner value hvalue).binding (List.disjoint_nil_left _)
          (List.disjoint_nil_left _)
      have hopened : Walks value.nodes (openInside scope value.span false >>= _) :=
        ⟨value.innersOf_subset, .opened (fun _ => rfl) (fun _ => ⟨rfl, rfl, rfl⟩) hinside⟩
      exact hopened.andThen (walks_walkOverrides scope rest hrest) hdisjoint

end

/-! ## Whole units -/

/-- A name that is bound to a value is found by the value, and the value is awaited for the name, of
which nothing is known yet.  Otherwise, the value is asked for by itself alone. -/
structure Tied (unit : Expr) (name : NameId) (value : NodeId) (session : Session Layout) :
    Prop where
  mem : value ∈ Expr.valuesOf unit.nodes
  origin : (session.tree.name name).origin = .bound value .any
  binding : session.defs.bindings.find? value = some name
  awaited : ∃ scope, (session.tree.name name).scope? = some scope ∧
    Awaited value scope session.defs.demands
  asked : ∀ demand ∈ session.defs.demands, ∀ kinds, .node value kinds ∈ demand.asks →
    kinds = .any ∧ ∃ expr, .node value .any ∈ expr.asks ∧
      session.defs.nodes.find? value = some ⟨expr, demand.scope⟩

theorem tied_ofUnit {unit : Expr} (h : unit.Distinct) {file : String} {topLevel : Bool}
    {name : NameId} {value : NodeId} {kinds : Kinds}
    (horigin : ((ofUnit unit file topLevel).tree.name name).origin = .bound value kinds) :
    Tied unit name value (ofUnit unit file topLevel) := by
  obtain ⟨demands, hbinds⟩ := (walks_walk root unit h).binding (rooted unit file topLevel)
  have hlast : (ofUnit unit file topLevel).defs.demands =
      demands ++ [⟨root, [.node unit.id .any]⟩] := by
    have hdemands : (ofUnit unit file topLevel).defs.demands =
        ((walk root unit).run (rooted unit file topLevel)).2.defs.demands ++
          [⟨root, [.node unit.id .any]⟩] := rfl
    rw [hdemands, hbinds.queued]
    rfl
  obtain ⟨hmem, rfl, hbinding, scope, hscope, hawaited⟩ :=
    hbinds.named name value kinds (Nat.zero_le _) horigin
  obtain ⟨hroot, hinner⟩ := h.value hmem
  -- the unit itself is bound to no name
  have hother : ∀ demand ∈ [(⟨root, [.node unit.id .any]⟩ : Demand)], ∀ kinds,
      .node value kinds ∉ demand.asks := by
    intro demand hdemand kinds hnode
    obtain rfl := List.mem_singleton.mp hdemand
    exact hroot (Ask.node.inj (List.mem_singleton.mp hnode)).1
  refine ⟨hmem, horigin, hbinding, ⟨scope, hscope, ?_⟩, fun demand hdemand kinds hnode => ?_⟩
  · rw [hlast]
    exact hawaited.append hother
  · rw [hlast] at hdemand
    rcases List.mem_append.mp hdemand with hdemand | hdemand
    · exact (hbinds.asked demand hdemand value kinds hnode hinner).2
    · exact absurd hnode (hother demand hdemand kinds)

end Survey

end FrameLang
