import FrameLang.Proofs.Analysis.Demands

/-!
# What a unit requires of its lookups

A construct requires kinds of the expressions directly inside it, and some of these
hand the requirement on to what is inside them (`Expr.Requires`).  If nothing is
wrong with the unit, a lookup then means a name that can only be of the kinds
required, with one exception (`Analysis.requirement_unmet_iff`): a name that is
bound to a definition keeps what it knows when it is required to be of kinds that
have nothing in common with that, and the conflict is not reported.

## Strategy

A requirement of a construct is one of its demands, so it has been served.  A
requirement that is handed on is served because the outer one is: an expression that
is inside another one has fewer nodes, none of which is under evaluation
(`Evaluation.Reached`).  At a lookup the name has then met the requirement, and the
comparison of masks sees to it that a masked name can be of some kind at all.
-/

namespace FrameLang

/-! ## Requirements -/

namespace Expr

/-- The kinds that a unit requires of the value of an expression. -/
inductive Requires (unit : Expr) : Expr → Kinds → Prop
  | condition {mark : Mark} {condition consequent alternative : Expr} :
      .conditional mark condition consequent alternative ∈ unit.nodes →
        Requires unit condition {.bool}
  | left {mark : Mark} {operator : Operator} {left right : Expr} :
      .arithmetic mark operator left right ∈ unit.nodes → Requires unit left .number
  | right {mark : Mark} {operator : Operator} {left right : Expr} :
      .arithmetic mark operator left right ∈ unit.nodes → Requires unit right .number
  | enforced {mark : Mark} {value : Expr} {kinds : Kinds} :
      .enforce mark value kinds ∈ unit.nodes → Requires unit value kinds
  | base {mark : Mark} {base : Expr} {overrides : List (Override Expr)} :
      .instantiate mark base overrides ∈ unit.nodes → Requires unit base {.template}
  | primary {mark : Mark} {primary fallback : Expr} {kinds : Kinds} :
      Requires unit (.coalesce mark primary fallback) kinds →
        Requires unit primary (kinds ∪ {.unit})
  | fallback {mark : Mark} {primary fallback : Expr} {kinds : Kinds} :
      Requires unit (.coalesce mark primary fallback) kinds → Requires unit fallback kinds
  | consequent {mark : Mark} {condition consequent alternative : Expr} {kinds : Kinds} :
      Requires unit (.conditional mark condition consequent alternative) kinds →
        Requires unit consequent kinds
  | alternative {mark : Mark} {condition consequent alternative : Expr} {kinds : Kinds} :
      Requires unit (.conditional mark condition consequent alternative) kinds →
        Requires unit alternative kinds
  | body {mark : Mark} {bindings : List (Attribute Expr)} {body : Expr} {kinds : Kinds} :
      Requires unit (.letIn mark bindings body) kinds → Requires unit body kinds
  | hidden {mark : Mark} {names : List String} {body : Expr} {kinds : Kinds} :
      Requires unit (.hide mark names body) kinds → Requires unit body kinds

/-- One expression is a node somewhere below another one. -/
def Inside (inner outer : Expr) : Prop :=
  ∃ rest, outer.nodes = outer :: rest ∧ inner.nodes.Sublist rest

theorem mem_nodes_self (expr : Expr) : expr ∈ expr.nodes := by
  cases expr <;> simp [nodes]

theorem Inside.mem_nodes {inner outer : Expr} (h : inner.Inside outer) : inner ∈ outer.nodes := by
  obtain ⟨rest, hnodes, hsublist⟩ := h
  rw [hnodes]
  exact List.mem_cons_of_mem _ (hsublist.subset inner.mem_nodes_self)

mutual

/-- The nodes of a node are nodes of the whole, in the same order. -/
theorem nodes_sublist_of_mem (expr : Expr) :
    (unit : Expr) → expr ∈ unit.nodes → expr.nodes.Sublist unit.nodes
  | .literal .., h | .lookup .., h => by
      simp only [nodes, List.mem_singleton] at h
      subst h
      exact List.Sublist.refl _
  | .coalesce mark first second, h | .arithmetic mark _ first second, h => by
      simp only [nodes, List.mem_cons, List.mem_append] at h ⊢
      rcases h with rfl | h | h
      · simp [nodes]
      · exact ((nodes_sublist_of_mem expr first h).trans (List.sublist_append_left ..)).cons _
      · exact ((nodes_sublist_of_mem expr second h).trans (List.sublist_append_right ..)).cons _
  | .conditional mark condition consequent alternative, h => by
      simp only [nodes, List.mem_cons, List.mem_append] at h ⊢
      rcases h with rfl | (h | h) | h
      · simp [nodes]
      · have hinner := (nodes_sublist_of_mem expr condition h).trans
          (List.sublist_append_left condition.nodes consequent.nodes)
        exact (hinner.trans (List.sublist_append_left ..)).cons _
      · have hinner := (nodes_sublist_of_mem expr consequent h).trans
          (List.sublist_append_right condition.nodes consequent.nodes)
        exact (hinner.trans (List.sublist_append_left ..)).cons _
      · exact ((nodes_sublist_of_mem expr alternative h).trans
          (List.sublist_append_right ..)).cons _
  | .enforce mark body _, h | .hide mark _ body, h => by
      simp only [nodes, List.mem_cons] at h ⊢
      rcases h with rfl | h
      · simp [nodes]
      · exact (nodes_sublist_of_mem expr body h).cons _
  | .frame mark attributes, h | .template mark attributes, h => by
      simp only [nodes, List.mem_cons] at h ⊢
      rcases h with rfl | h
      · simp [nodes]
      · exact (nodes_sublist_of_mem_attributes expr attributes h).cons _
  | .instantiate mark base overrides, h => by
      simp only [nodes, List.mem_cons, List.mem_append] at h ⊢
      rcases h with rfl | h | h
      · simp [nodes]
      · exact ((nodes_sublist_of_mem expr base h).trans (List.sublist_append_left ..)).cons _
      · exact ((nodes_sublist_of_mem_overrides expr overrides h).trans
          (List.sublist_append_right ..)).cons _
  | .letIn mark bindings body, h => by
      simp only [nodes, List.mem_cons, List.mem_append] at h ⊢
      rcases h with rfl | h | h
      · simp [nodes]
      · exact ((nodes_sublist_of_mem_attributes expr bindings h).trans
          (List.sublist_append_left ..)).cons _
      · exact ((nodes_sublist_of_mem expr body h).trans (List.sublist_append_right ..)).cons _

theorem nodes_sublist_of_mem_attributes (expr : Expr) :
    (attributes : List (Attribute Expr)) → expr ∈ nodesOfAttributes attributes →
      expr.nodes.Sublist (nodesOfAttributes attributes)
  | [], h => by simp [nodesOfAttributes] at h
  | ⟨_, _, value⟩ :: rest, h => by
      simp only [nodesOfAttributes, List.mem_append] at h ⊢
      rcases h with h | h
      · exact (nodes_sublist_of_mem expr value h).trans (List.sublist_append_left ..)
      · exact (nodes_sublist_of_mem_attributes expr rest h).trans (List.sublist_append_right ..)

theorem nodes_sublist_of_mem_overrides (expr : Expr) :
    (overrides : List (Override Expr)) → expr ∈ nodesOfOverrides overrides →
      expr.nodes.Sublist (nodesOfOverrides overrides)
  | [], h => by simp [nodesOfOverrides] at h
  | ⟨_, _, _, value⟩ :: rest, h => by
      simp only [nodesOfOverrides, List.mem_append] at h ⊢
      rcases h with h | h
      · exact (nodes_sublist_of_mem expr value h).trans (List.sublist_append_left ..)
      · exact (nodes_sublist_of_mem_overrides expr rest h).trans (List.sublist_append_right ..)

end

end Expr

/-! ## Demands in order -/

namespace Evaluation

open ScopeM

theorem priority_le_last (tree : ScopeTree) {demand : Demand} (demands : List Demand)
    (h : demand ∈ demands) (first : Nat) :
    priority tree demand ≤
      demands.foldl (fun last demand => max last (priority tree demand)) first := by
  have hstart : ∀ (demands : List Demand) (first : Nat),
      first ≤ demands.foldl (fun last demand => max last (priority tree demand)) first := by
    intro demands
    induction demands with
    | nil => exact fun first => Nat.le_refl first
    | cons other rest ih =>
        exact fun first => Nat.le_trans (Nat.le_max_left ..) (ih _)
  induction demands generalizing first with
  | nil => cases h
  | cons other rest ih =>
      rcases List.mem_cons.mp h with rfl | hmem
      · exact Nat.le_trans (Nat.le_max_right ..) (hstart rest _)
      · exact ih hmem _

/-- No demand gets lost when demands are put in order, and none is added. -/
theorem mem_byPriority (tree : ScopeTree) {demand : Demand} {demands : List Demand} :
    demand ∈ byPriority tree demands ↔ demand ∈ demands := by
  unfold byPriority
  simp only [List.mem_flatMap, List.mem_range, List.mem_filter, decide_eq_true_eq]
  constructor
  · rintro ⟨level, -, hmem, -⟩
    exact hmem
  · intro hmem
    exact ⟨priority tree demand, Nat.lt_succ_of_le (priority_le_last tree demands hmem 0), hmem, rfl⟩

/-! ## Comparing masks -/

/-- Masks have been compared: nothing has changed but the report, and if nothing is wrong
each of the masks has something in common with its source. -/
structure Compared (ids : List NameId) (before after : Session Progress) : Prop where
  tree : after.tree = before.tree
  defs : after.defs = before.defs
  reporter : before.reporter.Grows after.reporter
  meets : after.reporter.report.totalErrors = 0 → ∀ id ∈ ids, ∀ source mask,
    (before.tree.name id).origin = .masked source mask →
      (before.tree.possible source).meets mask = true

theorem checkMask_compares {session : Session Progress} (h : session.reporter.Counts)
    (id : NameId) : Compared [id] session ((checkMask id).run session).2 := by
  unfold checkMask
  rw [run_bind, run_tree]
  dsimp only
  cases horigin : (session.tree.name id).origin with
  | masked source mask =>
      dsimp only
      split
      · next hmeets =>
        refine ⟨rfl, rfl, .refl _, fun _ other hother source' mask' horigin' => ?_⟩
        obtain rfl := List.mem_singleton.mp hother
        rw [horigin] at horigin'
        cases horigin'
        exact hmeets
      · refine ⟨rfl, rfl, Reporter.grows_push .., fun hclean => ?_⟩
        exact absurd hclean (Reporter.totalErrors_push_ne_zero h _)
  | _ =>
      refine ⟨rfl, rfl, .refl _, fun _ other hother source mask horigin' => ?_⟩
      obtain rfl := List.mem_singleton.mp hother
      simp [horigin] at horigin'

theorem checkMasks_compares {session : Session Progress} (h : session.reporter.Counts) :
    Compared session.tree.nameIds session (checkMasks.run session).2 := by
  have hall : ∀ (ids : List NameId) (session : Session Progress), session.reporter.Counts →
      Compared ids session ((ids.forM checkMask).run session).2 := by
    intro ids
    induction ids with
    | nil => exact fun session _ => ⟨rfl, rfl, .refl _, by simp⟩
    | cons id rest ih =>
        intro session h
        have hfirst := checkMask_compares h id
        have hrest := ih _ (hfirst.reporter.counts h)
        rw [run_forM_cons]
        generalize (checkMask id).run session = first at hfirst hrest ⊢
        refine ⟨hrest.tree.trans hfirst.tree, hrest.defs.trans hfirst.defs,
          hfirst.reporter.trans hrest.reporter, fun hclean other hother => ?_⟩
        rcases List.mem_cons.mp hother with rfl | hmem
        · exact hfirst.meets (hrest.reporter.clean hclean) other
            (List.mem_singleton_self _)
        · have hmeets := hrest.meets hclean other hmem
          rwa [hfirst.tree] at hmeets
  exact hall session.tree.nameIds session h

/-! ## Requirements are served -/

section Reaching

variable {unit : Expr} {file : String} {topLevel : Bool} {session : Session Progress}

/-- A requirement has been served, at a depth that goes all the way through the expression
and while nothing in it is under evaluation. -/
def Reached (unit : Expr) (layout : Layout) (session : Session Progress) (expr : Expr)
    (demanded : Kinds) : Prop :=
  ∃ depth active, expr ∈ unit.nodes ∧ expr.nodes.length ≤ depth ∧
    (∀ inner ∈ expr.nodes, inner.id ∉ active) ∧
      Served layout session depth active expr.id demanded

theorem reached_of_served (hdistinct : unit.Distinct) {expr : Expr} {demanded : Kinds}
    (hexpr : expr ∈ unit.nodes)
    (h : Served (Survey.ofUnit unit file topLevel).defs session
      (depthOf (Survey.ofUnit unit file topLevel).defs) [] expr.id demanded) :
    Reached unit (Survey.ofUnit unit file topLevel).defs session expr demanded := by
  refine ⟨_, [], hexpr, ?_, by simp, h⟩
  have hsublist := Expr.nodes_sublist_of_mem expr unit hexpr
  have hplaced : ∀ id ∈ expr.nodes.map Expr.id,
      ((Survey.ofUnit unit file topLevel).defs.nodes.find? id).isSome := by
    intro id hid
    obtain ⟨inner, hinner, rfl⟩ := List.mem_map.mp hid
    obtain ⟨scope, hscope⟩ := @Survey.placed_ofUnit unit file topLevel hdistinct _
      (hsublist.subset hinner)
    simp [hscope]
  have hlength := length_le_size ((hsublist.map Expr.id).nodup hdistinct) hplaced
  rw [List.length_map] at hlength
  unfold depthOf
  omega

/-- What serves a requirement serves those that it is handed on to. -/
theorem Reached.inside (hdistinct : unit.Distinct) {expr : Expr} {demanded : Kinds}
    (h : Reached unit (Survey.ofUnit unit file topLevel).defs session expr demanded) :
    ∃ again : NodeId → Kinds → Prop, ServedBy session again demanded expr ∧
      ∀ inner kinds, inner.Inside expr → again inner.id kinds →
        Reached unit (Survey.ofUnit unit file topLevel).defs session inner kinds := by
  obtain ⟨depth, active, hexpr, hdepth, hnot, hserved⟩ := h
  have hself := expr.mem_nodes_self
  cases depth with
  | zero => exact absurd (List.length_pos_of_mem hself) (Nat.not_lt.mpr hdepth)
  | succ depth =>
      obtain ⟨scope, hplaced⟩ := @Survey.placed_ofUnit unit file topLevel hdistinct _ hexpr
      refine ⟨_, hserved _ hplaced (hnot expr hself), fun inner kinds hinside hagain => ?_⟩
      obtain ⟨rest, hnodes, hsublist⟩ := hinside
      have hunit := Expr.nodes_sublist_of_mem expr unit hexpr
      have hnodup : (expr.nodes.map Expr.id).Nodup := (hunit.map Expr.id).nodup hdistinct
      rw [hnodes] at hunit hdepth hnodup hnot
      have hinner : inner ∈ rest := hsublist.subset inner.mem_nodes_self
      refine ⟨depth, expr.id :: active, hunit.subset (List.mem_cons_of_mem _ hinner), ?_, ?_, hagain⟩
      · exact Nat.le_trans hsublist.length_le (Nat.le_of_succ_le_succ hdepth)
      · intro node hnode hactive
        have hrest := hsublist.subset hnode
        rcases List.mem_cons.mp hactive with heq | hmem
        · exact (List.nodup_cons.mp hnodup).1 (heq ▸ List.mem_map_of_mem hrest)
        · exact hnot node (List.mem_cons_of_mem _ hrest) hmem

/-- What a construct asks of a node is served, if nothing goes wrong. -/
theorem reached_of_ask (hdistinct : unit.Distinct) {construct expr : Expr} {demanded : Kinds}
    (hclean : (met (Survey.ofUnit unit file topLevel)).reporter.report.totalErrors = 0)
    (hconstruct : construct ∈ unit.nodes) (hexpr : expr ∈ unit.nodes)
    (hask : .node expr.id demanded ∈ construct.asks) :
    Reached unit (Survey.ofUnit unit file topLevel).defs (met (Survey.ofUnit unit file topLevel))
      expr demanded := by
  obtain ⟨scope, hdemand⟩ := @Survey.asked_ofUnit unit file topLevel _ hconstruct
    (List.ne_nil_of_mem hask)
  have hserved := meet_serves (classified_steady unit file topLevel) _ hclean _
    ((mem_byPriority _).mpr hdemand) _ hask
  exact reached_of_served hdistinct hexpr hserved

/-- Whatever is required is served, if nothing goes wrong. -/
theorem reached_of_requires (hdistinct : unit.Distinct)
    (hclean : (met (Survey.ofUnit unit file topLevel)).reporter.report.totalErrors = 0)
    {expr : Expr} {demanded : Kinds} (h : unit.Requires expr demanded) :
    Reached unit (Survey.ofUnit unit file topLevel).defs (met (Survey.ofUnit unit file topLevel))
      expr demanded := by
  have hmem : ∀ {inner outer : Expr}, inner.Inside outer → outer ∈ unit.nodes →
      inner ∈ unit.nodes := fun hinside houter =>
    (Expr.nodes_sublist_of_mem _ unit houter).subset hinside.mem_nodes
  -- what is asked for is reached at once, and everything else from the node around it
  induction h with
  | @condition mark condition consequent alternative hconstruct =>
      refine reached_of_ask hdistinct hclean hconstruct (hmem ⟨_, rfl, ?_⟩ hconstruct)
        (List.mem_singleton_self _)
      simp [List.append_assoc]
  | @base mark base overrides hconstruct =>
      exact reached_of_ask hdistinct hclean hconstruct (hmem ⟨_, rfl, by simp⟩ hconstruct)
        List.mem_cons_self
  | @left mark operator left right hconstruct =>
      have houter := reached_of_ask hdistinct hclean hconstruct hconstruct
        (List.mem_singleton_self _)
      obtain ⟨again, ⟨hserved, -, -⟩, hinside⟩ := houter.inside hdistinct
      exact hinside left _ ⟨_, rfl, by simp⟩ hserved
  | @right mark operator left right hconstruct =>
      have houter := reached_of_ask hdistinct hclean hconstruct hconstruct
        (List.mem_singleton_self _)
      obtain ⟨again, ⟨-, hserved, -⟩, hinside⟩ := houter.inside hdistinct
      exact hinside right _ ⟨_, rfl, by simp⟩ hserved
  | @enforced mark value kinds hconstruct =>
      have houter := reached_of_ask hdistinct hclean hconstruct hconstruct
        (List.mem_singleton_self _)
      obtain ⟨again, ⟨hserved, -⟩, hinside⟩ := houter.inside hdistinct
      exact hinside value _ ⟨_, rfl, by simp⟩ hserved
  | @primary mark primary fallback kinds _ ih =>
      obtain ⟨again, ⟨-, hserved⟩, hinside⟩ := ih.inside hdistinct
      exact hinside primary _ ⟨_, rfl, by simp⟩ hserved
  | @fallback mark primary fallback kinds _ ih =>
      obtain ⟨again, ⟨hserved, -⟩, hinside⟩ := ih.inside hdistinct
      exact hinside fallback _ ⟨_, rfl, by simp⟩ hserved
  | @consequent mark condition consequent alternative kinds _ ih =>
      obtain ⟨again, ⟨hserved, -⟩, hinside⟩ := ih.inside hdistinct
      exact hinside consequent _ ⟨_, rfl, by simp⟩ hserved
  | @alternative mark condition consequent alternative kinds _ ih =>
      obtain ⟨again, ⟨-, hserved⟩, hinside⟩ := ih.inside hdistinct
      exact hinside alternative _ ⟨_, rfl, by simp⟩ hserved
  | @body mark bindings body kinds _ ih =>
      obtain ⟨again, hserved, hinside⟩ := ih.inside hdistinct
      exact hinside body _ ⟨_, rfl, by simp⟩ hserved
  | @hidden mark names body kinds _ ih =>
      obtain ⟨again, hserved, hinside⟩ := ih.inside hdistinct
      exact hinside body _ ⟨_, rfl, by simp⟩ hserved

end Reaching

/-! ## The end of analysis -/

section Finished

variable (unit : Expr) (file : String) (topLevel : Bool)

theorem finished_compares : Compared (met (Survey.ofUnit unit file topLevel)).tree.nameIds
    (met (Survey.ofUnit unit file topLevel)) (finished (Survey.ofUnit unit file topLevel)) :=
  checkMasks_compares (met_keeps unit file topLevel).steady.counts

end Finished

end Evaluation

/-! ## Names that can be of some kind -/

namespace ScopeTree

variable {tree : ScopeTree}

/-- A name can be of some kind, as long as no mask excludes all that its source can be. -/
theorem possible_ne_empty (hformed : tree.Formed) {id : NameId}
    (hmeets : ∀ id source mask, (tree.name id).origin = .masked source mask →
      (tree.possible source).meets mask = true) : tree.possible id ≠ ∅ := by
  rw [← possible_bearer hformed]
  have hknown := hformed.known (tree.bearer id)
  cases horigin : (tree.name (tree.bearer id)).origin with
  | delegated source => exact absurd horigin (not_delegated_bearer hformed id source)
  | masked source mask =>
      rw [possible_of_masked hformed horigin]
      obtain ⟨kind, hkind, hmask⟩ := Kinds.meets_iff.mp (hmeets _ source mask horigin)
      exact Kinds.ne_empty_iff.mpr ⟨kind, Kinds.mem_inter.mpr ⟨hkind, hmask⟩⟩
  | _ =>
      rw [horigin] at hknown
      rw [possible, horigin]
      exact hknown

/-- What a demand that has been met says about what is possible. -/
theorem possible_of_met (hformed : tree.Formed) {id : NameId} {demanded : Kinds}
    (hlive : tree.isJunk id = false) (h : tree.Met id demanded) :
    tree.possible id ⊆ demanded ∨
      ∃ node, tree.definition? id = some node ∧ (tree.possible id).meets demanded = false := by
  have hheld := possible_subset_held hformed id
  have hdefinition := definition?_bearer hformed id
  have hjunk := isJunk_bearer hformed id
  rw [hlive, isJunk, NameRecord.isJunk_eq_false] at hjunk
  unfold Met at h
  unfold held at hheld
  cases horigin : (tree.name (tree.bearer id)).origin with
  | bound node kinds =>
      rw [horigin] at h hheld hdefinition
      rcases h with hsubset | hnot
      · exact .inl (Kinds.subset_trans hheld hsubset)
      · exact .inr ⟨node, hdefinition, Kinds.not_meets_of_subset hheld hnot⟩
  | delegated source => exact absurd horigin (not_delegated_bearer hformed id source)
  | junk => exact absurd horigin hjunk
  | _ =>
      rw [horigin] at h hheld
      exact .inl (Kinds.subset_trans hheld h)

end ScopeTree

/-! ## The outcome -/

namespace Analysis

/-- A demand that the name of a lookup has met tells what the name can be, except where a
definition has nothing to do with it. -/
theorem unmet_iff (analysis : Analysis) (hformed : analysis.tree.Formed)
    (hmasks : ∀ id source mask, (analysis.tree.name id).origin = .masked source mask →
      (analysis.tree.possible source).meets mask = true) {node : NodeId} {demanded : Kinds}
    (h : ∃ name, analysis.nameOf? node = some name ∧ analysis.tree.isJunk name = false ∧
      analysis.tree.Met name demanded) :
    ∃ name, analysis.nameOf? node = some name ∧ (¬ analysis.possible name ⊆ demanded ↔
      ∃ value, analysis.tree.definition? name = some value ∧
        (analysis.possible name).meets demanded = false) := by
  obtain ⟨name, hname, hlive, hmet⟩ := h
  refine ⟨name, hname, fun hnot => ?_, ?_⟩
  · exact (ScopeTree.possible_of_met hformed hlive hmet).resolve_left hnot
  · rintro ⟨-, -, hdisjoint⟩ hsubset
    have hall := Kinds.meets_of_subset hsubset (ScopeTree.possible_ne_empty hformed hmasks)
    exact absurd hall (by simp [hdisjoint])

section Units

variable {unit : Expr} {file : String} {options : Options}

theorem totalErrors_eq_zero (hsuccess : (analyse unit file options).success = true) :
    (Evaluation.finished (Survey.ofUnit unit file options.topLevel)).reporter.report.totalErrors =
      0 := by
  rw [success, Report.hasErrors, report_analyse] at hsuccess
  simpa using hsuccess

theorem tree_eq_met : (analyse unit file options).tree =
    (Evaluation.met (Survey.ofUnit unit file options.topLevel)).tree := by
  rw [tree_analyse]
  exact (Evaluation.finished_compares unit file options.topLevel).tree

theorem met_clean (hsuccess : (analyse unit file options).success = true) :
    (Evaluation.met (Survey.ofUnit unit file options.topLevel)).reporter.report.totalErrors = 0 :=
  (Evaluation.finished_compares unit file options.topLevel).reporter.clean
    (totalErrors_eq_zero hsuccess)

/-- If nothing is wrong with a unit, no mask excludes all that its source can be. -/
theorem masks_meet (hsuccess : (analyse unit file options).success = true) (id source : NameId)
    (mask : Kinds) (h : ((analyse unit file options).tree.name id).origin = .masked source mask) :
    ((analyse unit file options).tree.possible source).meets mask = true := by
  rw [tree_eq_met] at h ⊢
  have hid : id.index < (Evaluation.met
      (Survey.ofUnit unit file options.topLevel)).tree.names.size :=
    ScopeTree.lt_size_of_source (by rw [h]; rfl)
  exact (Evaluation.finished_compares unit file options.topLevel).meets
    (totalErrors_eq_zero hsuccess) id (List.mem_map.mpr ⟨id.index, List.mem_range.mpr hid, rfl⟩)
      source mask h

/-- If nothing is wrong with a unit, every lookup means a name that has met what is required. -/
theorem met_of_requires {mark : Mark} {path : List String} {demanded : Kinds}
    (hdistinct : unit.Distinct) (hsuccess : (analyse unit file options).success = true)
    (h : unit.Requires (.lookup mark path) demanded) :
    ∃ name, (analyse unit file options).nameOf? mark.id = some name ∧
      (analyse unit file options).tree.isJunk name = false ∧
        (analyse unit file options).tree.Met name demanded := by
  have hreached := Evaluation.reached_of_requires hdistinct (met_clean hsuccess) h
  obtain ⟨again, hserved, -⟩ := hreached.inside hdistinct
  obtain ⟨-, -, hunit, -⟩ := hreached
  obtain ⟨scope, hplaced⟩ := @Survey.placed_ofUnit unit file options.topLevel hdistinct _ hunit
  rw [← layout_analyse] at hplaced
  obtain ⟨name, hname, howned⟩ := owned_analyse hplaced
  refine ⟨name, hname, ?_, ?_⟩
  · rcases howned with ⟨-, herrors⟩ | hmem
    · rw [report_analyse, totalErrors_eq_zero hsuccess] at herrors
      exact absurd herrors (Nat.lt_irrefl 0)
    · have hformed := formed_analyse unit file options
      exact (((ScopeTree.mem_allNames hformed).mp hmem).home hformed).1
  · have hresolved := (Evaluation.finished_compares unit file options.topLevel).defs
    rw [nameOf?_analyse, hresolved] at hname
    rw [tree_eq_met]
    exact (hserved name hname).1

/-- If nothing is wrong with a unit, a lookup that is required to be of some kinds means a
name that can only be of these kinds, unless the name is bound to a definition and what it
can be has nothing in common with them. -/
theorem requirement_unmet_iff {mark : Mark} {path : List String} {demanded : Kinds}
    (hdistinct : unit.Distinct) (hsuccess : (analyse unit file options).success = true)
    (h : unit.Requires (.lookup mark path) demanded) :
    ∃ name, (analyse unit file options).nameOf? mark.id = some name ∧
      (¬ (analyse unit file options).possible name ⊆ demanded ↔
        ∃ value, (analyse unit file options).tree.definition? name = some value ∧
          ((analyse unit file options).possible name).meets demanded = false) := by
  exact unmet_iff _ (formed_analyse unit file options) (masks_meet hsuccess)
    (met_of_requires hdistinct hsuccess h)

end Units

/-- A name that one attribute requires to be an integer and another one to be text. -/
def torn : Expr :=
  let mark (id : Nat) : Mark := ⟨⟨id⟩, .nowhere⟩
  .frame (mark 6) [
    .of "x" (.enforce (mark 1) (.lookup (mark 0) ["y"]) ({.int} ∪ {.str})),
    .of "a" (.enforce (mark 3) (.lookup (mark 2) ["x"]) {.int}),
    .of "b" (.enforce (mark 5) (.lookup (mark 4) ["x"]) {.str})]

theorem requires_torn : torn.Requires (.lookup ⟨⟨4⟩, .nowhere⟩ ["x"]) {.str} :=
  @Expr.Requires.enforced torn ⟨⟨5⟩, .nowhere⟩ _ _
    (by simp [torn, Expr.nodes, Expr.nodesOfAttributes, Attribute.of])

/-- The requirement of text is not met, and nothing is reported. -/
theorem requirement_unmet_iff_torn :
    (analyse torn "torn" .default).success = true ∧
      (analyse torn "torn" .default).nameOf? ⟨4⟩ = some ⟨0⟩ ∧
        ((analyse torn "torn" .default).possible ⟨0⟩).meets {.str} = false ∧
          ∃ value, (analyse torn "torn" .default).tree.definition? ⟨0⟩ = some value := by
  have hsuccess : (analyse torn "torn" .default).success = true := by decide +kernel
  have hunmet : ¬ (analyse torn "torn" .default).possible ⟨0⟩ ⊆ {.str} := by decide +kernel
  have hmeaning : (analyse torn "torn" .default).nameOf? ⟨4⟩ = some ⟨0⟩ := by decide +kernel
  obtain ⟨name, hname, hiff⟩ := requirement_unmet_iff (by decide) hsuccess requires_torn
  obtain rfl := Option.some.inj (hmeaning.symm.trans hname)
  obtain ⟨value, hvalue, hdisjoint⟩ := hiff.mp hunmet
  exact ⟨hsuccess, hmeaning, hdisjoint, value, hvalue⟩

/-- Success does not mean that every requirement is met. -/
theorem not_requirements_met :
    ¬ ∀ (unit : Expr) (file : String) (options : Options) (mark : Mark) (path : List String)
      (demanded : Kinds), unit.Distinct → (analyse unit file options).success = true →
        unit.Requires (.lookup mark path) demanded →
          ∃ name, (analyse unit file options).nameOf? mark.id = some name ∧
            (analyse unit file options).possible name ⊆ demanded := by
  intro hall
  have hsuccess : (analyse torn "torn" .default).success = true := by decide +kernel
  have hunmet : ¬ (analyse torn "torn" .default).possible ⟨0⟩ ⊆ {.str} := by decide +kernel
  have hmeaning : (analyse torn "torn" .default).nameOf? ⟨4⟩ = some ⟨0⟩ := by decide +kernel
  obtain ⟨name, hname, hsubset⟩ :=
    hall torn "torn" .default _ _ _ (by decide) hsuccess requires_torn
  obtain rfl := Option.some.inj (hmeaning.symm.trans hname)
  exact hunmet hsubset

end Analysis

end FrameLang
