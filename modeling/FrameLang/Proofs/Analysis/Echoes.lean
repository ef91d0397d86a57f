import FrameLang.Proofs.Analysis.Sides
import FrameLang.Proofs.Analysis.Survey

/-!
# Walks that leave the same behind

The walk over a unit does not look at the kinds that are written down.  So the walk over
a unit and the walk over what remains of it when some of them are left out leave the same
scopes, names and complaints behind, and the same layout but for what is written down in
the nodes themselves (`Survey.echoes_ofUnit`).

## Strategy

A walk is put together from steps by means of `bind`, and two walks made of steps that
leave the same behind do so themselves (`Survey.Echoing.bind`).  So the walk over an
expression is followed step by step, by induction on the expression.
-/

namespace FrameLang

namespace Survey

open ScopeM

/-! ## Two walks -/

/-- Two walks have left the same behind, apart from what is written down in the nodes. -/
structure Echoes (first second : Session Layout) : Prop where
  tree : second.tree = first.tree
  reporter : second.reporter = first.reporter
  keys : second.defs.nodes.keys = first.defs.nodes.keys
  scope : ∀ id, (second.defs.nodes.find? id).map Placement.scope =
    (first.defs.nodes.find? id).map Placement.scope
  outline : ∀ id, (second.defs.nodes.find? id).map (fun placement => placement.expr.outline) =
    (first.defs.nodes.find? id).map fun placement => placement.expr.outline
  bindings : second.defs.bindings = first.defs.bindings
  opened : second.defs.opened = first.defs.opened
  lookups : second.defs.lookups = first.defs.lookups
  demands : second.defs.demands = first.defs.demands

theorem Echoes.symm {first second : Session Layout} (h : Echoes first second) :
    Echoes second first :=
  ⟨h.tree.symm, h.reporter.symm, h.keys.symm, fun id => (h.scope id).symm,
    fun id => (h.outline id).symm, h.bindings.symm, h.opened.symm, h.lookups.symm, h.demands.symm⟩

theorem Echoes.trans {first second third : Session Layout} (h : Echoes first second)
    (h' : Echoes second third) : Echoes first third :=
  ⟨h'.tree.trans h.tree, h'.reporter.trans h.reporter, h'.keys.trans h.keys,
    fun id => (h'.scope id).trans (h.scope id), fun id => (h'.outline id).trans (h.outline id),
    h'.bindings.trans h.bindings, h'.opened.trans h.opened, h'.lookups.trans h.lookups,
    h'.demands.trans h.demands⟩

theorem Echoes.size_nodes {first second : Session Layout} (h : Echoes first second) :
    second.defs.nodes.size = first.defs.nodes.size := by
  have hkeys := congrArg List.length h.keys
  simpa only [Table.keys, Table.size, List.length_map] using hkeys

/-- Two steps that leave the same behind. -/
def Echoing {α : Type} (step step' : ScopeM Layout α) : Prop :=
  ∀ first second, Echoes first second →
    (step'.run second).1 = (step.run first).1 ∧ Echoes (step.run first).2 (step'.run second).2

namespace Echoing

variable {α β : Type}

theorem pure (value : α) : Echoing (pure value : ScopeM Layout α) (pure value) :=
  fun _ _ h => ⟨rfl, h⟩

theorem bind {step step' : ScopeM Layout α} {next next' : α → ScopeM Layout β}
    (h : Echoing step step') (hnext : ∀ value, Echoing (next value) (next' value)) :
    Echoing (step >>= next) (step' >>= next') := by
  intro first second hechoes
  obtain ⟨hvalue, hafter⟩ := h first second hechoes
  rw [run_bind, run_bind, hvalue]
  exact hnext _ _ _ hafter

theorem tree : Echoing (tree : ScopeM Layout ScopeTree) tree :=
  fun _ _ h => ⟨h.tree, h⟩

theorem modifyTree (change : ScopeTree → ScopeTree) :
    Echoing (modifyTree change : ScopeM Layout Unit) (modifyTree change) :=
  fun _ _ h => ⟨rfl, { h with tree := congrArg change h.tree }⟩

theorem report (change : Reporter → Reporter) :
    Echoing (report change : ScopeM Layout Unit) (report change) :=
  fun _ _ h => ⟨rfl, { h with reporter := congrArg change h.reporter }⟩

theorem place (node : NodeId) (side : Bool) (expr : Expr) (scope : ScopeId) :
    Echoing (modifyDefs fun layout => layout.place expr scope)
      (modifyDefs fun layout => layout.place (expr.blanked node side) scope) := by
  intro first second h
  refine ⟨rfl, { h with keys := ?_, scope := fun id => ?_, outline := fun id => ?_ }⟩
  · simp only [run_modifyDefs, Layout.place, Table.keys_insert, h.keys, Expr.id_blanked]
  · simp only [run_modifyDefs, Layout.place, Table.find?_insert, Expr.id_blanked]
    split
    · rfl
    · exact h.scope id
  · simp only [run_modifyDefs, Layout.place, Table.find?_insert, Expr.id_blanked]
    split
    · exact congrArg some (expr.outline_blanked node side)
    · exact h.outline id

theorem addLookup (id : NodeId) : Echoing (modifyDefs fun layout => layout.addLookup id)
    (modifyDefs fun layout => layout.addLookup id) :=
  fun _ _ h => ⟨rfl, { h with lookups := congrArg (· ++ [id]) h.lookups }⟩

theorem ask (scope : ScopeId) {asks asks' : List Ask} (hasks : asks' = asks) :
    Echoing (Survey.ask scope asks) (Survey.ask scope asks') := by
  subst hasks
  exact fun _ _ h => ⟨rfl, { h with
    demands := congrArg (fun demands => demands ++ [(⟨scope, asks'⟩ : Demand)]) h.demands }⟩

theorem openInside (outer : ScopeId) (span : Span) (delegates : Bool) :
    Echoing (openInside outer span delegates) (openInside outer span delegates) :=
  .bind .tree fun _ => .bind (.modifyTree _) fun _ => .pure _

theorem openFor (mark : Mark) (outer : ScopeId) (delegates : Bool) :
    Echoing (openFor mark outer delegates) (openFor mark outer delegates) := by
  refine .bind (.openInside _ _ _) fun scope => .bind (fun _ _ h => ⟨rfl, ?_⟩) fun _ => .pure _
  exact { h with opened := congrArg (Table.insert · mark.id scope) h.opened }

theorem declare (scope : ScopeId) (name : String) {value value' : NodeId} (hvalue : value' = value)
    (span : Span) :
    Echoing (Survey.bind scope name value span) (Survey.bind scope name value' span) := by
  subst hvalue
  refine .bind .tree fun before => ?_
  cases before.bind? scope name value' with
  | none => exact .report _
  | some grown =>
      refine .bind (.modifyTree _) fun _ _ _ h => ⟨rfl, ?_⟩
      exact { h with bindings := congrArg (Table.insert · value' before.nextName) h.bindings }

theorem forM {γ : Type} {step : γ → ScopeM Layout PUnit} (items : List γ)
    (h : ∀ item, Echoing (step item) (step item)) :
    Echoing (items.forM step) (items.forM step) := by
  induction items with
  | nil => exact .pure _
  | cons item rest ih => exact .bind (h item) fun _ => ih

variable (node : NodeId) (side : Bool)

theorem bindAttributes (scope : ScopeId) (attributes : List (Attribute Expr)) :
    Echoing (bindAttributes scope attributes)
      (bindAttributes scope (Expr.blankedAttributes node side attributes)) := by
  induction attributes with
  | nil => exact .pure _
  | cons item rest ih => exact .bind (.declare _ _ (Expr.id_blanked ..) _) fun _ => ih

theorem bindOverrides (scope : ScopeId) (overrides : List (Override Expr)) :
    Echoing (bindOverrides scope overrides)
      (bindOverrides scope (Expr.blankedOverrides node side overrides)) := by
  induction overrides with
  | nil => exact .pure _
  | cons item rest ih => exact .bind (.declare _ _ (Expr.id_blanked ..) _) fun _ => ih

end Echoing

section Blanked

variable (node : NodeId)

theorem asksOfAttributes_blanked (side : Bool) (attributes : List (Attribute Expr)) :
    asksOfAttributes (Expr.blankedAttributes node side attributes) =
      asksOfAttributes attributes := by
  induction attributes with
  | nil => rfl
  | cons item rest ih => exact congrArg₂ List.cons (congrArg Ask.definition (Expr.id_blanked ..)) ih

theorem asksOfOverrides_blanked (side : Bool) (overrides : List (Override Expr)) :
    asksOfOverrides (Expr.blankedOverrides node side overrides) = asksOfOverrides overrides := by
  induction overrides with
  | nil => rfl
  | cons item rest ih => exact congrArg₂ List.cons (congrArg Ask.definition (Expr.id_blanked ..)) ih

mutual

/-- The walk over an expression leaves the same behind when something has been left out of it. -/
theorem echoing_walk (scope : ScopeId) (side : Bool) (expr : Expr) :
    Echoing (walk scope expr) (walk scope (expr.blanked node side)) := by
  match expr with
  | .literal _ _ => exact .place node side _ scope
  | .lookup mark _ => exact .bind (.place node side _ scope) fun _ => .addLookup mark.id
  | .coalesce _ primary fallback =>
      exact .bind (.place node side _ scope) fun _ =>
        .bind (echoing_walk scope side primary) fun _ => echoing_walk scope side fallback
  | .conditional _ condition consequent alternative =>
      refine .bind (.place node side _ scope) fun _ =>
        .bind (echoing_walk scope side condition) fun _ =>
          .bind (echoing_walk scope side consequent) fun _ =>
            .bind (echoing_walk scope side alternative) fun _ => .ask scope ?_
      rw [Expr.id_blanked]
  | .arithmetic _ _ left right =>
      exact .bind (.place node side _ scope) fun _ => .bind (echoing_walk scope side left) fun _ =>
        .bind (echoing_walk scope side right) fun _ => .ask scope rfl
  | .enforce _ value _ =>
      exact .bind (.place node side _ scope) fun _ => .bind (echoing_walk scope side value) fun _ =>
        .ask scope rfl
  | .frame mark attributes | .template mark attributes =>
      exact .bind (.place node side _ scope) fun _ => .bind (.openFor mark scope _) fun inner =>
        .bind (.bindAttributes _ _ inner attributes) fun _ =>
          .bind (echoing_walkAttributes inner _ attributes) fun _ =>
            .ask inner (asksOfAttributes_blanked ..)
  | .letIn mark bindings body =>
      exact .bind (.place node side _ scope) fun _ => .bind (.openFor mark scope _) fun inner =>
        .bind (.bindAttributes _ _ inner bindings) fun _ =>
          .bind (echoing_walkAttributes inner side bindings) fun _ =>
            .bind (echoing_walk inner side body) fun _ => .ask inner (asksOfAttributes_blanked ..)
  | .hide mark names body =>
      exact .bind (.place node side _ scope) fun _ => .bind (.openFor mark scope _) fun inner =>
        .bind (.forM names fun _ => .modifyTree _) fun _ => echoing_walk inner side body
  | .instantiate mark base overrides =>
      refine .bind (.place node side _ scope) fun _ => .bind (echoing_walk scope side base) fun _ =>
        .bind (.openFor mark scope _) fun inner =>
          .bind (.bindOverrides _ _ inner overrides) fun _ =>
            .bind (echoing_walkOverrides inner _ overrides) fun _ => .ask inner ?_
      rw [Expr.id_blanked, asksOfOverrides_blanked]

theorem echoing_walkAttributes (scope : ScopeId) (side : Bool)
    (attributes : List (Attribute Expr)) :
    Echoing (walkAttributes scope attributes)
      (walkAttributes scope (Expr.blankedAttributes node side attributes)) := by
  match attributes with
  | [] => exact .pure _
  | ⟨_, _, value⟩ :: rest =>
      exact .bind (echoing_walk scope side value) fun _ => echoing_walkAttributes scope side rest

theorem echoing_walkOverrides (scope : ScopeId) (side : Bool) (overrides : List (Override Expr)) :
    Echoing (walkOverrides scope overrides)
      (walkOverrides scope (Expr.blankedOverrides node side overrides)) := by
  match overrides with
  | [] => exact .pure _
  | ⟨_, _, none, value⟩ :: rest =>
      exact .bind (echoing_walk scope side value) fun _ => echoing_walkOverrides scope side rest
  | ⟨_, _, some replaced, value⟩ :: rest =>
      have hopened := Echoing.openInside scope value.span false
      refine .bind (by rwa [Expr.span_blanked]) fun inner => .bind (.modifyTree _) fun _ =>
        .bind (echoing_walk inner side value) fun _ => echoing_walkOverrides scope side rest

end

theorem echoes_ofUnit_blanked (side : Bool) (unit : Expr) (file : String) (topLevel : Bool) :
    Echoes (ofUnit unit file topLevel) (ofUnit (unit.blanked node side) file topLevel) := by
  have hasked : Echoing (ask root [.node unit.id .any])
      (ask root [.node (unit.blanked node side).id .any]) := .ask root (by rw [Expr.id_blanked])
  have hstart : Echoes (rooted unit file topLevel)
      (rooted (unit.blanked node side) file topLevel) :=
    ⟨by rw [rooted, rooted, Expr.span_blanked], rfl, rfl, fun _ => rfl, fun _ => rfl, rfl, rfl, rfl,
      rfl⟩
  have hwalked : Echoing (walk root unit >>= fun _ => ask root [.node unit.id .any])
      (walk root (unit.blanked node side) >>= fun _ =>
        ask root [.node (unit.blanked node side).id .any]) :=
    .bind (echoing_walk node root side unit) fun _ => hasked
  exact (hwalked _ _ hstart).2

/-- Units that differ in nothing but kinds inside a construct are laid out alike. -/
theorem echoes_ofUnit {side : Bool} {first second : Expr}
    (hsame : first.blanked node side = second.blanked node side) (file : String) (topLevel : Bool) :
    Echoes (ofUnit first file topLevel) (ofUnit second file topLevel) := by
  have hsecond := (echoes_ofUnit_blanked node side second file topLevel).symm
  rw [← hsame] at hsecond
  exact (echoes_ofUnit_blanked node side first file topLevel).trans hsecond

end Blanked

end Survey

end FrameLang
