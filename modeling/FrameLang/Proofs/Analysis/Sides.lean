import FrameLang.Proofs.Analysis.Evaluation
import Mathlib.Data.List.Nodup

/-!
# Inside and outside of a construct

A frame, a template or an instantiation opens a scope, and the nodes of an expression are
inside this scope or outside it (`Expr.sided`).  This file compares units that differ
inside only, and there in nothing but the kinds that are written down: those of literals
and those that are enforced.  They become the same when these are left out
(`Expr.blanked`).

Whatever is outside is evaluated in the same way in both units, and whatever is inside in
the same way up to kinds (`Expr.exists_counterpart`).
-/

namespace FrameLang

/-- Ways that differ in nothing but the kinds that are written down. -/
inductive Way.Alike : Way → Way → Prop where
  | leaf (kinds kinds' : Kinds) : Alike (leaf kinds) (leaf kinds')
  | lookup (path : List String) : Alike (lookup path) (lookup path)
  | coalesce (primary fallback : NodeId) :
      Alike (coalesce primary fallback) (coalesce primary fallback)
  | choose (consequent alternative : NodeId) :
      Alike (choose consequent alternative) (choose consequent alternative)
  | arithmetic (left right : NodeId) : Alike (arithmetic left right) (arithmetic left right)
  | enforce (value : NodeId) (kinds kinds' : Kinds) :
      Alike (enforce value kinds) (enforce value kinds')
  | body (node : NodeId) : Alike (body node) (body node)

theorem Way.Alike.symm {first second : Way} (h : first.Alike second) : second.Alike first := by
  cases h <;> constructor

theorem Way.Alike.trans {first second third : Way} (h : first.Alike second)
    (h' : second.Alike third) : first.Alike third := by
  cases h <;> cases h' <;> constructor

namespace Expr

/-- True of the constructs that open a scope in which inherited names are masked. -/
def Masks : Expr → Prop
  | frame _ _ | template _ _ | instantiate _ _ _ => True
  | _ => False

/-! ## Leaving out what is written down -/

mutual

/-- The expression without the literals and enforced kinds that are inside a construct; the
expression itself may be inside already. -/
def blanked (node : NodeId) (inside : Bool) : Expr → Expr
  | literal mark value => literal mark (if inside then .null else value)
  | lookup mark path => lookup mark path
  | coalesce mark primary fallback =>
      coalesce mark (primary.blanked node inside) (fallback.blanked node inside)
  | conditional mark condition consequent alternative =>
      conditional mark (condition.blanked node inside) (consequent.blanked node inside)
        (alternative.blanked node inside)
  | arithmetic mark operator left right =>
      arithmetic mark operator (left.blanked node inside) (right.blanked node inside)
  | enforce mark value kinds =>
      enforce mark (value.blanked node inside) (if inside then .any else kinds)
  | frame mark attributes =>
      frame mark (blankedAttributes node (inside || mark.id = node) attributes)
  | template mark attributes =>
      template mark (blankedAttributes node (inside || mark.id = node) attributes)
  | instantiate mark base overrides =>
      instantiate mark (base.blanked node inside)
        (blankedOverrides node (inside || mark.id = node) overrides)
  | letIn mark bindings body =>
      letIn mark (blankedAttributes node inside bindings) (body.blanked node inside)
  | hide mark names body => hide mark names (body.blanked node inside)

/-- The attributes without the literals and enforced kinds of their values. -/
def blankedAttributes (node : NodeId) (inside : Bool) :
    List (Attribute Expr) → List (Attribute Expr)
  | [] => []
  | ⟨name, span, value⟩ :: rest =>
      ⟨name, span, value.blanked node inside⟩ :: blankedAttributes node inside rest

/-- The overrides without the literals and enforced kinds of their values. -/
def blankedOverrides (node : NodeId) (inside : Bool) :
    List (Override Expr) → List (Override Expr)
  | [] => []
  | ⟨name, span, replaced?, value⟩ :: rest =>
      ⟨name, span, replaced?, value.blanked node inside⟩ :: blankedOverrides node inside rest

end

@[simp] theorem mark_blanked (node : NodeId) (inside : Bool) (expr : Expr) :
    (expr.blanked node inside).mark = expr.mark := by
  cases expr <;> rfl

@[simp] theorem id_blanked (node : NodeId) (inside : Bool) (expr : Expr) :
    (expr.blanked node inside).id = expr.id :=
  congrArg Mark.id (mark_blanked node inside expr)

@[simp] theorem span_blanked (node : NodeId) (inside : Bool) (expr : Expr) :
    (expr.blanked node inside).span = expr.span :=
  congrArg Mark.span (mark_blanked node inside expr)

mutual

/-- Leaving out everything leaves nothing of what might have been left out before. -/
theorem blanked_blanked (node other : NodeId) (inside : Bool) (expr : Expr) :
    (expr.blanked node inside).blanked other true = expr.blanked other true := by
  match expr with
  | literal .. | lookup .. => rfl
  | coalesce _ primary fallback | arithmetic _ _ primary fallback =>
      simp only [blanked, blanked_blanked]
  | conditional _ condition consequent alternative => simp only [blanked, blanked_blanked]
  | enforce _ value _ | hide _ _ value => simp only [blanked, blanked_blanked, if_true]
  | frame _ attributes | template _ attributes =>
      simp only [blanked, Bool.true_or, blankedAttributes_blankedAttributes]
  | instantiate _ base overrides =>
      simp only [blanked, Bool.true_or, blanked_blanked, blankedOverrides_blankedOverrides]
  | letIn _ bindings body =>
      simp only [blanked, blanked_blanked, blankedAttributes_blankedAttributes]

theorem blankedAttributes_blankedAttributes (node other : NodeId) (inside : Bool)
    (attributes : List (Attribute Expr)) :
    blankedAttributes other true (blankedAttributes node inside attributes) =
      blankedAttributes other true attributes := by
  match attributes with
  | [] => rfl
  | ⟨_, _, value⟩ :: rest =>
      simp only [blankedAttributes, blanked_blanked, blankedAttributes_blankedAttributes]

theorem blankedOverrides_blankedOverrides (node other : NodeId) (inside : Bool)
    (overrides : List (Override Expr)) :
    blankedOverrides other true (blankedOverrides node inside overrides) =
      blankedOverrides other true overrides := by
  match overrides with
  | [] => rfl
  | ⟨_, _, _, value⟩ :: rest =>
      simp only [blankedOverrides, blanked_blanked, blankedOverrides_blankedOverrides]

end

/-- Only kinds are left out. -/
theorem way_blanked (node : NodeId) (inside : Bool) (expr : Expr) :
    expr.way.Alike (expr.blanked node inside).way := by
  cases expr <;> simp only [way, blanked, id_blanked] <;> constructor

/-- What remains of an expression when all that is written down in it is left out: its nodes with
their regions, the names that they declare, amend and hide, and the paths that they look up. -/
def outline (expr : Expr) : Expr := expr.blanked default true

theorem outline_blanked (node : NodeId) (inside : Bool) (expr : Expr) :
    (expr.blanked node inside).outline = expr.outline := blanked_blanked ..

section Outlines

variable {first second : Expr} (h : first.outline = second.outline)
include h

theorem mark_eq_of_outline : second.mark = first.mark := by
  have hmark := congrArg mark h
  rw [outline, outline, mark_blanked, mark_blanked] at hmark
  exact hmark.symm

/-- Expressions with the same outline are evaluated in the same way up to kinds. -/
theorem way_alike_of_outline : first.way.Alike second.way := by
  have hsecond := way_blanked default true second
  rw [← outline, ← h] at hsecond
  exact (way_blanked default true first).trans hsecond.symm

end Outlines

/-- What is outside is evaluated as before. -/
theorem way_blanked_false (node : NodeId) (expr : Expr) :
    (expr.blanked node false).way = expr.way := by
  cases expr <;> simp [way, blanked]

/-! ## The sides of a construct -/

mutual

/-- Every node of an expression, with whether it is inside a construct; the expression itself may be
inside already. -/
def sided (node : NodeId) (inside : Bool) : Expr → List (Expr × Bool)
  | expr@(literal ..) | expr@(lookup ..) => [(expr, inside)]
  | expr@(coalesce _ primary fallback) =>
      (expr, inside) :: (primary.sided node inside ++ fallback.sided node inside)
  | expr@(conditional _ condition consequent alternative) =>
      (expr, inside) :: (condition.sided node inside ++ consequent.sided node inside ++
        alternative.sided node inside)
  | expr@(arithmetic _ _ left right) =>
      (expr, inside) :: (left.sided node inside ++ right.sided node inside)
  | expr@(enforce _ value _) => (expr, inside) :: value.sided node inside
  | expr@(frame mark attributes) =>
      (expr, inside) :: sidedAttributes node (inside || mark.id = node) attributes
  | expr@(template mark attributes) =>
      (expr, inside) :: sidedAttributes node (inside || mark.id = node) attributes
  | expr@(instantiate mark base overrides) =>
      (expr, inside) :: (base.sided node inside ++
        sidedOverrides node (inside || mark.id = node) overrides)
  | expr@(letIn _ bindings body) =>
      (expr, inside) :: (sidedAttributes node inside bindings ++ body.sided node inside)
  | expr@(hide _ _ body) => (expr, inside) :: body.sided node inside

/-- Every node of the values of attributes. -/
def sidedAttributes (node : NodeId) (inside : Bool) : List (Attribute Expr) → List (Expr × Bool)
  | [] => []
  | ⟨_, _, value⟩ :: rest => value.sided node inside ++ sidedAttributes node inside rest

/-- Every node of the values of overrides. -/
def sidedOverrides (node : NodeId) (inside : Bool) : List (Override Expr) → List (Expr × Bool)
  | [] => []
  | ⟨_, _, _, value⟩ :: rest => value.sided node inside ++ sidedOverrides node inside rest

end

section Sides

variable (node : NodeId)

mutual

theorem map_fst_sided (inside : Bool) (expr : Expr) :
    (expr.sided node inside).map Prod.fst = expr.nodes := by
  match expr with
  | .literal .. | .lookup .. => rfl
  | .coalesce _ primary fallback | .arithmetic _ _ primary fallback =>
      simp only [sided, nodes, List.map_cons, List.map_append, map_fst_sided]
  | .conditional _ condition consequent alternative =>
      simp only [sided, nodes, List.map_cons, List.map_append, map_fst_sided]
  | .enforce _ value _ | .hide _ _ value =>
      simp only [sided, nodes, List.map_cons, map_fst_sided]
  | .frame _ attributes | .template _ attributes =>
      simp only [sided, nodes, List.map_cons, map_fst_sidedAttributes]
  | .instantiate _ base overrides =>
      simp only [sided, nodes, List.map_cons, List.map_append, map_fst_sided,
        map_fst_sidedOverrides]
  | .letIn _ bindings body =>
      simp only [sided, nodes, List.map_cons, List.map_append, map_fst_sided,
        map_fst_sidedAttributes]

theorem map_fst_sidedAttributes (inside : Bool) (attributes : List (Attribute Expr)) :
    (sidedAttributes node inside attributes).map Prod.fst = nodesOfAttributes attributes := by
  match attributes with
  | [] => rfl
  | ⟨_, _, value⟩ :: rest =>
      simp only [sidedAttributes, nodesOfAttributes, List.map_append, map_fst_sided,
        map_fst_sidedAttributes]

theorem map_fst_sidedOverrides (inside : Bool) (overrides : List (Override Expr)) :
    (sidedOverrides node inside overrides).map Prod.fst = nodesOfOverrides overrides := by
  match overrides with
  | [] => rfl
  | ⟨_, _, _, value⟩ :: rest =>
      simp only [sidedOverrides, nodesOfOverrides, List.map_append, map_fst_sided,
        map_fst_sidedOverrides]

end

/-- A node on its side, without what is left out there. -/
def blankedPair (pair : Expr × Bool) : Expr × Bool := (pair.1.blanked node pair.2, pair.2)

mutual

/-- Leaving things out of an expression leaves them out of its nodes. -/
theorem sided_blanked (inside : Bool) (expr : Expr) :
    (expr.blanked node inside).sided node inside =
      (expr.sided node inside).map (blankedPair node) := by
  match expr with
  | .literal .. | .lookup .. => rfl
  | .coalesce _ primary fallback | .arithmetic _ _ primary fallback =>
      simp only [blanked, sided, List.map_cons, List.map_append, sided_blanked, blankedPair]
  | .conditional _ condition consequent alternative =>
      simp only [blanked, sided, List.map_cons, List.map_append, sided_blanked, blankedPair]
  | .enforce _ value _ | .hide _ _ value =>
      simp only [blanked, sided, List.map_cons, sided_blanked, blankedPair]
  | .frame _ attributes | .template _ attributes =>
      simp only [blanked, sided, List.map_cons, sidedAttributes_blanked, blankedPair]
  | .instantiate _ base overrides =>
      simp only [blanked, sided, List.map_cons, List.map_append, sided_blanked,
        sidedOverrides_blanked, blankedPair]
  | .letIn _ bindings body =>
      simp only [blanked, sided, List.map_cons, List.map_append, sided_blanked,
        sidedAttributes_blanked, blankedPair]

theorem sidedAttributes_blanked (inside : Bool) (attributes : List (Attribute Expr)) :
    sidedAttributes node inside (blankedAttributes node inside attributes) =
      (sidedAttributes node inside attributes).map (blankedPair node) := by
  match attributes with
  | [] => rfl
  | ⟨_, _, value⟩ :: rest =>
      simp only [blankedAttributes, sidedAttributes, List.map_append, sided_blanked,
        sidedAttributes_blanked]

theorem sidedOverrides_blanked (inside : Bool) (overrides : List (Override Expr)) :
    sidedOverrides node inside (blankedOverrides node inside overrides) =
      (sidedOverrides node inside overrides).map (blankedPair node) := by
  match overrides with
  | [] => rfl
  | ⟨_, _, _, value⟩ :: rest =>
      simp only [blankedOverrides, sidedOverrides, List.map_append, sided_blanked,
        sidedOverrides_blanked]

end

/-- An expression is one of its own nodes. -/
theorem self_mem_sided (inside : Bool) (expr : Expr) : (expr, inside) ∈ expr.sided node inside := by
  cases expr <;> simp [sided]

theorem value_mem_sidedAttributes {inside : Bool} {attributes : List (Attribute Expr)}
    {item : Attribute Expr} (h : item ∈ attributes) :
    (item.value, inside) ∈ sidedAttributes node inside attributes := by
  induction attributes with
  | nil => cases h
  | cons other rest ih =>
      rcases List.mem_cons.mp h with rfl | h
      · exact List.mem_append_left _ (self_mem_sided node inside _)
      · exact List.mem_append_right _ (ih h)

theorem value_mem_sidedOverrides {inside : Bool} {overrides : List (Override Expr)}
    {item : Override Expr} (h : item ∈ overrides) :
    (item.value, inside) ∈ sidedOverrides node inside overrides := by
  induction overrides with
  | nil => cases h
  | cons other rest ih =>
      rcases List.mem_cons.mp h with rfl | h
      · exact List.mem_append_left _ (self_mem_sided node inside _)
      · exact List.mem_append_right _ (ih h)

mutual

/-- The sides of the nodes of a node are those that they have in the whole. -/
theorem sided_subset {inside side : Bool} {inner : Expr} (expr : Expr)
    (h : (inner, side) ∈ expr.sided node inside) :
    inner.sided node side ⊆ expr.sided node inside := by
  -- either it is the whole, or it is among the nodes of one part of it
  rcases eq_or_ne (inner, side) (expr, inside) with heq | hne
  · obtain ⟨rfl, rfl⟩ := Prod.mk.inj heq
    exact List.Subset.refl _
  match expr with
  | .literal .. | .lookup .. => exact absurd (List.mem_singleton.mp h) hne
  | .coalesce _ primary fallback | .arithmetic _ _ primary fallback =>
      refine List.subset_cons_of_subset _ ?_
      rcases List.mem_append.mp (List.mem_of_ne_of_mem hne h) with h | h
      · exact List.subset_append_of_subset_left _ (sided_subset primary h)
      · exact List.subset_append_of_subset_right _ (sided_subset fallback h)
  | .conditional _ condition consequent alternative =>
      refine List.subset_cons_of_subset _ ?_
      rcases List.mem_append.mp (List.mem_of_ne_of_mem hne h) with h | h
      · refine List.subset_append_of_subset_left _ ?_
        rcases List.mem_append.mp h with h | h
        · exact List.subset_append_of_subset_left _ (sided_subset condition h)
        · exact List.subset_append_of_subset_right _ (sided_subset consequent h)
      · exact List.subset_append_of_subset_right _ (sided_subset alternative h)
  | .enforce _ value _ | .hide _ _ value =>
      exact List.subset_cons_of_subset _ (sided_subset value (List.mem_of_ne_of_mem hne h))
  | .frame _ attributes | .template _ attributes =>
      exact List.subset_cons_of_subset _
        (sidedAttributes_subset attributes (List.mem_of_ne_of_mem hne h))
  | .instantiate _ base overrides =>
      refine List.subset_cons_of_subset _ ?_
      rcases List.mem_append.mp (List.mem_of_ne_of_mem hne h) with h | h
      · exact List.subset_append_of_subset_left _ (sided_subset base h)
      · exact List.subset_append_of_subset_right _ (sidedOverrides_subset overrides h)
  | .letIn _ bindings body =>
      refine List.subset_cons_of_subset _ ?_
      rcases List.mem_append.mp (List.mem_of_ne_of_mem hne h) with h | h
      · exact List.subset_append_of_subset_left _ (sidedAttributes_subset bindings h)
      · exact List.subset_append_of_subset_right _ (sided_subset body h)

theorem sidedAttributes_subset {inside side : Bool} {inner : Expr}
    (attributes : List (Attribute Expr))
    (h : (inner, side) ∈ sidedAttributes node inside attributes) :
    inner.sided node side ⊆ sidedAttributes node inside attributes := by
  match attributes with
  | [] => cases h
  | ⟨_, _, value⟩ :: rest =>
      rcases List.mem_append.mp h with h | h
      · exact List.subset_append_of_subset_left _ (sided_subset value h)
      · exact List.subset_append_of_subset_right _ (sidedAttributes_subset rest h)

theorem sidedOverrides_subset {inside side : Bool} {inner : Expr}
    (overrides : List (Override Expr)) (h : (inner, side) ∈ sidedOverrides node inside overrides) :
    inner.sided node side ⊆ sidedOverrides node inside overrides := by
  match overrides with
  | [] => cases h
  | ⟨_, _, _, value⟩ :: rest =>
      rcases List.mem_append.mp h with h | h
      · exact List.subset_append_of_subset_left _ (sided_subset value h)
      · exact List.subset_append_of_subset_right _ (sidedOverrides_subset rest h)

end

/-- The nodes that are evaluated along with a node are on the same side. -/
theorem heir_sided {inside side : Bool} {expr inner : Expr} {heir : NodeId}
    (h : (inner, side) ∈ expr.sided node inside) (hheir : heir ∈ inner.way.heirs) :
    ∃ other, (other, side) ∈ expr.sided node inside ∧ other.id = heir := by
  have hchild : ∃ other, (other, side) ∈ inner.sided node side ∧ other.id = heir := by
    have hself := self_mem_sided node side
    cases inner with
    | coalesce mark primary fallback | conditional mark condition primary fallback
    | arithmetic mark operator primary fallback =>
        simp only [way, Way.heirs, List.mem_cons, List.not_mem_nil, or_false] at hheir
        rcases hheir with rfl | rfl <;> exact ⟨_, by simp [sided, hself], rfl⟩
    | enforce mark value kinds | letIn mark bindings value | hide mark names value =>
        obtain rfl := List.mem_singleton.mp hheir
        exact ⟨value, by simp [sided, hself], rfl⟩
    | _ => cases hheir
  obtain ⟨other, hmem, hid⟩ := hchild
  exact ⟨other, sided_subset node expr h hmem, hid⟩

end Sides

/-! ## Which nodes are inside -/

/-- A construct of a unit has a node inside. -/
def Encloses (unit : Expr) (node id : NodeId) : Prop :=
  ∃ expr, (expr, true) ∈ unit.sided node false ∧ expr.id = id

/-- No node of a unit is on both sides. -/
theorem encloses_iff {unit : Expr} (hdistinct : unit.Distinct) {node : NodeId} {expr : Expr}
    {side : Bool} (h : (expr, side) ∈ unit.sided node false) :
    unit.Encloses node expr.id ↔ side = true := by
  have hids : ((unit.sided node false).map fun pair => pair.1.id).Nodup := by
    have hmap : (unit.sided node false).map (fun pair => pair.1.id) = unit.nodes.map Expr.id := by
      rw [← map_fst_sided node false, List.map_map]
      rfl
    rw [hmap]
    exact hdistinct
  constructor
  · rintro ⟨other, hother, hid⟩
    have hsame := List.inj_on_of_nodup_map hids hother h hid
    exact (Prod.mk.inj hsame).2.symm
  · rintro rfl
    exact ⟨expr, h, rfl⟩

/-! ## Two units -/

section Counterparts

variable {node : NodeId} {inside : Bool} {first second : Expr}
  (hsame : first.blanked node inside = second.blanked node inside)
include hsame

/-- To each node of one unit there is one of the other, on the same side, with the same mark, and
evaluated in the same way up to kinds. -/
theorem exists_counterpart {expr : Expr} {side : Bool}
    (h : (expr, side) ∈ first.sided node inside) :
    ∃ other, (other, side) ∈ second.sided node inside ∧ other.mark = expr.mark ∧
      expr.way.Alike other.way ∧ (side = false → other.way = expr.way) := by
  have hmem : blankedPair node (expr, side) ∈ (first.blanked node inside).sided node inside := by
    rw [sided_blanked]
    exact List.mem_map_of_mem h
  rw [hsame, sided_blanked] at hmem
  obtain ⟨⟨other, side'⟩, hother, heq⟩ := List.mem_map.mp hmem
  obtain ⟨hexpr, rfl⟩ := Prod.mk.inj heq
  refine ⟨other, hother, ?_, ?_, ?_⟩
  · have hmark := congrArg Expr.mark hexpr
    rwa [mark_blanked, mark_blanked] at hmark
  · have hways := way_blanked node side' other
    rw [hexpr] at hways
    exact (way_blanked node side' expr).trans hways.symm
  · rintro rfl
    rw [← way_blanked_false node other, hexpr, way_blanked_false]

theorem map_id_nodes_eq : second.nodes.map Expr.id = first.nodes.map Expr.id := by
  have hids : ∀ expr : Expr, (expr.blanked node inside).nodes.map Expr.id =
      expr.nodes.map Expr.id := by
    intro expr
    rw [← map_fst_sided node inside, sided_blanked, List.map_map, List.map_map,
      ← map_fst_sided node inside expr, List.map_map]
    exact List.map_congr_left fun pair _ => id_blanked node pair.2 pair.1
  rw [← hids second, ← hids first, hsame]

theorem distinct_iff : second.Distinct ↔ first.Distinct := by
  rw [Distinct, Distinct, map_id_nodes_eq hsame]

end Counterparts

end Expr

end FrameLang
