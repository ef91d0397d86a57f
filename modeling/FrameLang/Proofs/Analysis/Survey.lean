import FrameLang.Analysis.Layout
import FrameLang.Proofs.Scope.Steps
import Mathlib.Data.List.Nodup

/-!
# What the walk over a unit leaves behind

The walk opens scopes, binds names and fills the layout, by operations on the scope
tree.  It makes no demand and looks nothing up, so nothing is traced and no name has a
longer one (`Survey.Kept`).

## Strategy

`Survey.Lays nodes constructs` says what a part of the walk has done: the `nodes`
are in the layout, and what the `constructs` ask for is among the demands.  Parts put together do what each of them does (`Lays.trans`), so the walk
over an expression lays out the nodes of the expression, by induction on it.
-/

namespace FrameLang

/-- What a construct asks for. -/
def Expr.asks : Expr → List Ask
  | .conditional _ condition _ _ => [.node condition.id {.bool}]
  | .arithmetic mark _ _ _ | .enforce mark _ _ => [.node mark.id .any]
  | .frame _ attributes | .template _ attributes | .letIn _ attributes _ =>
      Survey.asksOfAttributes attributes
  | .instantiate _ base overrides =>
      .node base.id {.template} :: Survey.asksOfOverrides overrides
  | _ => []

/-- True of the lookups. -/
def Expr.IsLookup : Expr → Prop
  | .lookup _ _ => True
  | _ => False

namespace Survey

open ScopeM

/-! ## Definitions -/

/-- What is true throughout the walk. -/
structure Kept (session : Session Layout) : Prop where
  formed : session.tree.Formed
  childless : ∀ id component, session.tree.child? id component = none
  untraced : session.trace = []
  counts : session.reporter.Counts
  unscopal : ∀ finding ∈ session.reporter.seen, ¬ finding.Scopal
  bound : ∀ value name, session.defs.bindings.find? value = some name →
    ∃ kinds, (session.tree.name name).origin = .bound value kinds
  unweighed : ∀ scope, (session.tree.scope scope).intrinsics = ∅

/-- The walk may change the layout as it likes. -/
abbrev Changes : Layout → Layout → Prop := fun _ _ => True

/-- A part of the walk has placed some nodes and noted what some constructs ask for. -/
structure Lays (nodes constructs : List Expr) (before after : Session Layout) : Prop where
  kept : Kept after
  operated : before.Operated Changes after
  scopes : before.tree.scopes.size ≤ after.tree.scopes.size
  lookups : before.defs.lookups ⊆ after.defs.lookups
  demands : before.defs.demands ⊆ after.defs.demands
  still : ∀ id, (before.defs.nodes.find? id).isSome → (after.defs.nodes.find? id).isSome
  placed : ∀ node ∈ nodes, (after.defs.nodes.find? node.id).isSome
  found : ∀ id placement, after.defs.nodes.find? id = some placement →
    before.defs.nodes.find? id = some placement ∨
      (placement.expr ∈ nodes ∧ placement.expr.id = id ∧
        placement.scope.index < after.tree.scopes.size ∧
          (placement.expr.IsLookup → id ∈ after.defs.lookups))
  asked : ∀ construct ∈ constructs, construct.asks ≠ [] →
    ∃ scope, ⟨scope, construct.asks⟩ ∈ after.defs.demands

/-! ## Putting parts together -/

namespace Lays

variable {nodes nodes' constructs constructs' : List Expr} {first second third : Session Layout}

theorem trans (h : Lays nodes constructs first second)
    (h' : Lays nodes' constructs' second third) :
    Lays (nodes ++ nodes') (constructs ++ constructs') first third where
  kept := h'.kept
  operated := h.operated.trans h'.operated
  scopes := Nat.le_trans h.scopes h'.scopes
  lookups := List.Subset.trans h.lookups h'.lookups
  demands := List.Subset.trans h.demands h'.demands
  still id hid := h'.still id (h.still id hid)
  placed := by
    intro node hnode
    rcases List.mem_append.mp hnode with hnode | hnode
    · exact h'.still node.id (h.placed node hnode)
    · exact h'.placed node hnode
  found := by
    intro id placement hid
    rcases h'.found id placement hid with hid | ⟨hmem, hid, hscope, hlookup⟩
    · rcases h.found id placement hid with hid | ⟨hmem, hid, hscope, hlookup⟩
      · exact .inl hid
      · exact .inr ⟨List.mem_append_left _ hmem, hid, Nat.lt_of_lt_of_le hscope h'.scopes,
          fun his => h'.lookups (hlookup his)⟩
    · exact .inr ⟨List.mem_append_right _ hmem, hid, hscope, hlookup⟩
  asked := by
    intro construct hconstruct hasks
    rcases List.mem_append.mp hconstruct with hconstruct | hconstruct
    · obtain ⟨scope, hmem⟩ := h.asked construct hconstruct hasks
      exact ⟨scope, h'.demands hmem⟩
    · exact h'.asked construct hconstruct hasks

/-- Another part, in a scope that has been opened before. -/
theorem step (h : Lays nodes constructs first second) {scope : ScopeId}
    (hscope : scope.index < first.tree.scopes.size)
    (hstep : Kept second → scope.index < second.tree.scopes.size →
      Lays nodes' constructs' second third) :
    Lays (nodes ++ nodes') (constructs ++ constructs') first third :=
  h.trans (hstep h.kept (Nat.lt_of_lt_of_le hscope h.scopes))

/-- A node is placed before whatever is inside it. -/
theorem under {expr : Expr} (h : Lays [expr] [] first second) {scope : ScopeId}
    (hscope : scope.index < first.tree.scopes.size) (hnodes : expr.nodes = expr :: nodes)
    (hinside : Kept second → scope.index < second.tree.scopes.size →
      Lays nodes (expr :: nodes) second third) :
    Lays expr.nodes expr.nodes first third := by
  rw [hnodes]
  exact h.step hscope hinside

/-- The order in which demands are noted does not matter. -/
theorem of_eq (h : Lays nodes constructs first second) (hnodes : nodes' = nodes)
    (hconstructs : ∀ construct, construct ∈ constructs' → construct ∈ constructs) :
    Lays nodes' constructs' first second := by
  subst hnodes
  exact { h with asked := fun construct hmem => h.asked construct (hconstructs construct hmem) }

/-- Whatever asks for nothing counts as asked. -/
theorem of_asks_eq_nil (h : Lays nodes constructs first second) (expr : Expr)
    (hasks : expr.asks = []) : Lays nodes (expr :: constructs) first second := by
  refine { h with asked := fun construct hconstruct hne => ?_ }
  rcases List.mem_cons.mp hconstruct with rfl | hmem
  · exact absurd hasks hne
  · exact h.asked construct hmem hne

/-- A step that leaves the layout alone. -/
theorem of_tree {session : Session Layout} {tree : ScopeTree} (h : Kept (session.withTree tree))
    (hoperated : session.Operated Changes (session.withTree tree))
    (hscopes : session.tree.scopes.size ≤ tree.scopes.size) :
    Lays [] [] session (session.withTree tree) :=
  ⟨h, hoperated, hscopes, fun _ h => h, fun _ h => h, fun _ h => h, fun _ h => (by cases h),
    fun _ _ h => .inl h, fun _ h => (by cases h)⟩

theorem refl {session : Session Layout} (h : Kept session) : Lays [] [] session session :=
  of_tree h (.refl session) (Nat.le_refl _)

end Lays

/-! ## The steps of the walk -/

section Steps

variable {session : Session Layout} (h : Kept session)
include h

/-- A node is placed, and if it is a lookup, it is listed among the lookups. -/
theorem lays_node {expr : Expr} {scope : ScopeId} (hscope : scope.index < session.tree.scopes.size)
    {layout : Layout} (hnodes : layout.nodes = session.defs.nodes.insert expr.id ⟨expr, scope⟩)
    (hbindings : layout.bindings = session.defs.bindings)
    (hdemands : layout.demands = session.defs.demands)
    (hlookups : session.defs.lookups ⊆ layout.lookups)
    (hlookup : expr.IsLookup → expr.id ∈ layout.lookups) :
    Lays [expr] [] session (session.withDefs layout) := by
  have hfind : ∀ id, layout.nodes.find? id =
      if expr.id = id then some ⟨expr, scope⟩ else session.defs.nodes.find? id := fun id => by
    rw [hnodes, Table.find?_insert]
  refine ⟨⟨h.formed, h.childless, h.untraced, h.counts, h.unscopal, hbindings ▸ h.bound,
    h.unweighed⟩, .own trivial, Nat.le_refl _, hlookups, fun _ h => hdemands ▸ h, ?_, ?_, ?_, fun _ h => (by cases h)⟩
  · intro id hid
    rw [Session.withDefs, hfind]
    split
    · rfl
    · exact hid
  · intro node hnode
    obtain rfl := List.mem_singleton.mp hnode
    rw [Session.withDefs, hfind, if_pos rfl]
    rfl
  · intro id placement hid
    rw [Session.withDefs, hfind] at hid
    split at hid
    · next heq =>
      cases hid
      exact .inr ⟨List.mem_singleton_self _, heq, hscope, fun his => heq ▸ hlookup his⟩
    · exact .inl hid

theorem lays_place (expr : Expr) (hlookup : ¬ expr.IsLookup) {scope : ScopeId}
    (hscope : scope.index < session.tree.scopes.size) :
    Lays [expr] [] session (session.withDefs (session.defs.place expr scope)) :=
  lays_node h hscope rfl rfl rfl (fun _ h => h) fun his => absurd his hlookup

theorem lays_lookup (mark : Mark) (path : List String) {scope : ScopeId}
    (hscope : scope.index < session.tree.scopes.size) :
    Lays [.lookup mark path] [] session
      (session.withDefs ((session.defs.place (.lookup mark path) scope).addLookup mark.id)) :=
  lays_node h hscope rfl rfl rfl (List.subset_append_left _ _)
    fun _ => List.mem_append_right _ (List.mem_singleton_self _)

theorem lays_demand (scope : ScopeId) (asks : List Ask) :
    Lays [] [] session ((ask scope asks).run session).2 :=
  ⟨⟨h.formed, h.childless, h.untraced, h.counts, h.unscopal, h.bound, h.unweighed⟩, .own trivial,
    Nat.le_refl _, fun _ h => h, List.subset_append_left _ _, fun _ h => h,
    fun _ h => (by cases h), fun _ _ h => .inl h, fun _ h => (by cases h)⟩

omit h in
/-- A construct notes what it asks for after everything inside it. -/
theorem Lays.asking {nodes : List Expr} {before : Session Layout}
    (h : Lays nodes nodes before session) (scope : ScopeId) (expr : Expr) {asks : List Ask}
    (hasks : expr.asks = asks) :
    Lays nodes (expr :: nodes) before ((ask scope asks).run session).2 := by
  have hnoted := h.trans (lays_demand h.kept scope asks)
  rw [List.append_nil] at hnoted
  refine { hnoted with asked := fun construct hconstruct hne => ?_ }
  rcases List.mem_cons.mp hconstruct with rfl | hmem
  · exact ⟨scope, List.mem_append_right _ (hasks ▸ List.mem_singleton_self _)⟩
  · exact hnoted.asked construct hmem hne

theorem lays_openInside {outer : ScopeId} (houter : outer.index < session.tree.scopes.size)
    (span : Span) (delegates : Bool) :
    Lays [] [] session ((openInside outer span delegates).run session).2 := by
  refine .of_tree ⟨h.formed.openInside houter span delegates, h.childless, h.untraced, h.counts,
    h.unscopal, h.bound, fun scope => ?_⟩ (.openInside session houter span delegates) (by simp)
  rw [Session.tree_withTree, ScopeTree.scope_openInside houter]
  split
  · rfl
  · split
    · exact h.unweighed outer
    · exact h.unweighed scope

theorem lays_openFor (mark : Mark) {outer : ScopeId}
    (houter : outer.index < session.tree.scopes.size) (delegates : Bool) :
    Lays [] [] session ((openFor mark outer delegates).run session).2 :=
  have hopened := lays_openInside h houter mark.span delegates
  { hopened with
    operated := hopened.operated.trans (.own trivial)
    kept :=
      ⟨hopened.kept.formed, hopened.kept.childless, hopened.kept.untraced, hopened.kept.counts,
        hopened.kept.unscopal, hopened.kept.bound, hopened.kept.unweighed⟩ }

/-- Whatever is laid out inside a scope that a construct opens. -/
theorem lays_inside {β : Type} (mark : Mark) {outer : ScopeId}
    (houter : outer.index < session.tree.scopes.size) (delegates : Bool)
    (body : ScopeId → ScopeM Layout β) {nodes constructs : List Expr}
    (hbody : ∀ inner (session : Session Layout), Kept session →
      inner.index < session.tree.scopes.size →
        Lays nodes constructs session ((body inner).run session).2) :
    Lays nodes constructs session ((openFor mark outer delegates >>= body).run session).2 := by
  have hopened := lays_openFor h mark houter delegates
  have hinner : ((openFor mark outer delegates).run session).1.index <
      ((openFor mark outer delegates).run session).2.tree.scopes.size := by
    change session.tree.scopes.size <
      (session.tree.openInside outer mark.span delegates).scopes.size
    simp
  exact hopened.trans (hbody _ _ hopened.kept hinner)

theorem unweighed_setEntry (scope : ScopeId) (name : String) (entry : Option NameId)
    (other : ScopeId) :
    ((session.tree.setEntry scope name entry).scope other).intrinsics = ∅ := by
  unfold ScopeTree.setEntry
  rw [ScopeTree.scope_recording, ScopeTree.scope_modifyScope]
  split
  · exact h.unweighed scope
  · exact h.unweighed other

/-- A name that is defined without being inherited. -/
theorem kept_define (scope : ScopeId) (name : String) (origin : Origin)
    (hsource : origin.source? = none) (hjunk : origin ≠ .junk) (hknown : origin.known ≠ ∅) :
    Kept (session.withTree (session.tree.define scope name origin)) where
  formed := h.formed.define hjunk (session.tree.fits_own scope name hsource hknown)
  childless id component := by
    have hchild : (session.tree.define scope name origin).child? id component =
        session.tree.child? id component := ScopeTree.child?_addName _ rfl id component
    rw [Session.tree_withTree, hchild, h.childless]
  untraced := h.untraced
  counts := h.counts
  unscopal := h.unscopal
  bound value bound hbound := by
    obtain ⟨kinds, horigin⟩ := h.bound value bound hbound
    refine ⟨kinds, ?_⟩
    have hlt : bound.index < session.tree.names.size := by
      by_contra hge
      rw [ScopeTree.name_of_size_le (Nat.le_of_not_lt hge)] at horigin
      cases horigin
    have hname : (session.tree.define scope name origin).name bound =
        (session.tree.addName (.new name (some scope) origin)).name bound := rfl
    rw [Session.tree_withTree, hname, ScopeTree.name_addName_of_lt _ _ hlt, horigin]
  unweighed := unweighed_setEntry h scope name (some session.tree.nextName)

theorem lays_bind (scope : ScopeId) (name : String) (value : NodeId) (span : Span) :
    Lays [] [] session ((bind scope name value span).run session).2 := by
  have hbind : ∀ tree, session.tree.bind? scope name value = some tree →
      session.Operated Changes (session.withTree tree) := fun _ => .bind
  unfold bind
  rw [run_bind, run_tree]
  unfold ScopeTree.bind? at hbind ⊢
  dsimp only
  cases hmeaning : session.tree.meaning? scope name with
  | some entry =>
      have hreport := Reporter.grows_push session.reporter
        (.error session.reporter.file .duplicateAttribute s!"Duplicate attribute “{name}”." span)
      have hunscopal : ∀ finding ∈ (session.reporter.duplicateAttribute span name).seen,
          ¬ finding.Scopal := by
        intro finding hfinding
        rcases Reporter.mem_seen_push.mp hfinding with rfl | hmem
        · exact fun hscopal => by rcases hscopal with hcode | hcode <;> cases hcode
        · exact h.unscopal finding hmem
      have hkept : Kept (session.reporting (session.reporter.duplicateAttribute span name)) :=
        ⟨h.formed, h.childless, h.untraced, hreport.counts h.counts, hunscopal, h.bound,
          h.unweighed⟩
      exact { Lays.refl h with kept := hkept, operated := .reporting session _ }
  | none =>
      have hany : Kinds.any ≠ ∅ := by decide
      have hdefined := kept_define h scope name (.bound value .any) rfl (by simp) hany
      have hbound : ∀ other bound, (session.defs.bind value session.tree.nextName).bindings.find?
          other = some bound → ∃ kinds, ((session.tree.define scope name
            (.bound value .any)).name bound).origin = .bound other kinds := by
        intro other bound hother
        rw [Layout.bind, Table.find?_insert] at hother
        split at hother
        · next heq =>
          obtain rfl := Option.some.inj hother
          subst heq
          have hname : (session.tree.define scope name (.bound value .any)).name
              session.tree.nextName = .new name (some scope) (.bound value .any) :=
            ScopeTree.name_addName_self ..
          exact ⟨.any, by rw [hname]; rfl⟩
        · exact hdefined.bound other bound hother
      have hscopes : session.tree.scopes.size ≤
          (session.tree.define scope name (.bound value .any)).scopes.size :=
        Nat.le_of_eq (ScopeTree.size_scopes_modifyScope ..).symm
      have hoperated := hbind _ (by rw [hmeaning])
      exact { Lays.of_tree hdefined hoperated hscopes with
        operated := hoperated.trans (.own trivial)
        kept := ⟨hdefined.formed, hdefined.childless, h.untraced, h.counts, h.unscopal, hbound,
          hdefined.unweighed⟩ }

theorem lays_nameReplaced (scope : ScopeId) (name : String) :
    Lays [] [] session (session.withTree (session.tree.nameReplaced scope name)) := by
  have hany : Kinds.any ≠ ∅ := by decide
  refine .of_tree (kept_define h scope name (.replaced .any) rfl (by simp) hany)
    (.nameReplaced session scope name) ?_
  exact Nat.le_of_eq (ScopeTree.size_scopes_modifyScope ..).symm

theorem lays_forbid (scope : ScopeId) (name : String) :
    Lays [] [] session (session.withTree (session.tree.forbid scope name)) := by
  refine .of_tree ⟨h.formed.setEntry ?_, h.childless, h.untraced, h.counts, h.unscopal, h.bound,
    unweighed_setEntry h scope name none⟩ (.forbid session scope name) ?_
  · exact fun _ heq => by cases heq
  · exact Nat.le_of_eq (ScopeTree.size_scopes_modifyScope ..).symm

/-- A step that lays out nothing by itself does not when it is repeated either. -/
theorem lays_forM {α : Type} {step : α → ScopeM Layout PUnit} (items : List α)
    (hstep : ∀ item (session : Session Layout), Kept session →
      Lays [] [] session ((step item).run session).2) :
    Lays [] [] session ((items.forM step).run session).2 :=
  forM_preserves (Lays [] [] session) items
    (fun item _ later hlaid => hlaid.trans (hstep item later hlaid.kept)) (.refl h)

theorem lays_bindAttributes (scope : ScopeId) (attributes : List (Attribute Expr)) :
    Lays [] [] session ((bindAttributes scope attributes).run session).2 :=
  lays_forM h attributes fun item _ hkept =>
    lays_bind hkept scope item.name item.value.id item.span

theorem lays_bindOverrides (scope : ScopeId) (overrides : List (Override Expr)) :
    Lays [] [] session ((bindOverrides scope overrides).run session).2 :=
  lays_forM h overrides fun item _ hkept =>
    lays_bind hkept scope item.name item.value.id item.span

theorem lays_forbidAll (scope : ScopeId) (names : List String) :
    Lays [] [] session ((names.forM fun name =>
      (modifyTree fun tree => tree.forbid scope name : ScopeM Layout Unit)).run session).2 :=
  lays_forM h names fun name _ hkept => lays_forbid hkept scope name

end Steps

/-! ## The walk -/

mutual

/-- The walk over an expression places its nodes and notes what they ask for. -/
theorem lays_walk {scope : ScopeId} (expr : Expr) {session : Session Layout} (h : Kept session)
    (hscope : scope.index < session.tree.scopes.size) :
    Lays expr.nodes expr.nodes session ((walk scope expr).run session).2 := by
  match expr with
  | .literal mark value =>
      exact (lays_place h (.literal mark value) id hscope).of_asks_eq_nil _ rfl
  | .lookup mark path => exact (lays_lookup h mark path hscope).of_asks_eq_nil _ rfl
  | .coalesce mark primary fallback =>
      refine (lays_place h (.coalesce mark primary fallback) id hscope).under hscope rfl
        fun hkept hscope => ?_
      have hprimary := lays_walk primary hkept hscope
      exact (hprimary.step hscope (lays_walk fallback)).of_asks_eq_nil _ rfl
  | .conditional mark condition consequent alternative =>
      refine (lays_place h (.conditional mark condition consequent alternative) id hscope).under
        hscope rfl fun hkept hscope => ?_
      have hcondition := lays_walk condition hkept hscope
      have hconsequent := hcondition.step hscope (lays_walk consequent)
      exact (hconsequent.step hscope (lays_walk alternative)).asking scope _ rfl
  | .arithmetic mark operator left right =>
      refine (lays_place h (.arithmetic mark operator left right) id hscope).under hscope rfl
        fun hkept hscope => ?_
      have hleft := lays_walk left hkept hscope
      exact (hleft.step hscope (lays_walk right)).asking scope _ rfl
  | .enforce mark value kinds =>
      refine (lays_place h (.enforce mark value kinds) id hscope).under hscope rfl
        fun hkept hscope => ?_
      exact (lays_walk value hkept hscope).asking scope _ rfl
  | .frame mark attributes =>
      refine (lays_place h (.frame mark attributes) id hscope).under hscope rfl
        fun hkept hscope => lays_inside hkept mark hscope false (fun inner => do
          bindAttributes inner attributes
          walkAttributes inner attributes
          ask inner (asksOfAttributes attributes)) fun inner _ hkept hinner => ?_
      have hbound := lays_bindAttributes hkept inner attributes
      exact (hbound.step hinner (lays_walkAttributes attributes)).asking inner _ rfl
  | .template mark attributes =>
      refine (lays_place h (.template mark attributes) id hscope).under hscope rfl
        fun hkept hscope => lays_inside hkept mark hscope false (fun inner => do
          bindAttributes inner attributes
          walkAttributes inner attributes
          ask inner (asksOfAttributes attributes)) fun inner _ hkept hinner => ?_
      have hbound := lays_bindAttributes hkept inner attributes
      exact (hbound.step hinner (lays_walkAttributes attributes)).asking inner _ rfl
  | .letIn mark bindings body =>
      refine (lays_place h (.letIn mark bindings body) id hscope).under hscope rfl
        fun hkept hscope => lays_inside hkept mark hscope true (fun inner => do
          bindAttributes inner bindings
          walkAttributes inner bindings
          walk inner body
          ask inner (asksOfAttributes bindings)) fun inner _ hkept hinner => ?_
      have hbound := lays_bindAttributes hkept inner bindings
      have hvalues := hbound.step hinner (lays_walkAttributes bindings)
      exact (hvalues.step hinner (lays_walk body)).asking inner _ rfl
  | .hide mark names body =>
      refine (lays_place h (.hide mark names body) id hscope).under hscope rfl
        fun hkept hscope => lays_inside hkept mark hscope true (fun inner => do
          names.forM fun name => modifyTree fun tree => tree.forbid inner name
          walk inner body) fun inner _ hkept hinner => ?_
      have hforbidden := lays_forbidAll hkept inner names
      exact (hforbidden.step hinner (lays_walk body)).of_asks_eq_nil _ rfl
  | .instantiate mark base overrides =>
      refine (lays_place h (.instantiate mark base overrides) id hscope).under hscope rfl
        fun hkept hscope => ?_
      have hbase := lays_walk base hkept hscope
      have hinside := hbase.step hscope fun hkept hscope =>
        lays_inside hkept mark hscope false (fun inner => do
          bindOverrides inner overrides
          walkOverrides inner overrides
          ask inner (.node base.id {.template} :: asksOfOverrides overrides))
          fun inner _ hkept hinner =>
            have hbound := lays_bindOverrides hkept inner overrides
            (hbound.step hinner (lays_walkOverrides overrides)).asking inner
              (.instantiate mark base overrides) rfl
      -- the base is walked before the scope is opened, and asked for from inside it
      exact hinside.of_eq rfl fun construct hmem => List.perm_middle.mem_iff.mpr hmem

theorem lays_walkAttributes {scope : ScopeId} (attributes : List (Attribute Expr))
    {session : Session Layout} (h : Kept session)
    (hscope : scope.index < session.tree.scopes.size) :
    Lays (Expr.nodesOfAttributes attributes) (Expr.nodesOfAttributes attributes) session
      ((walkAttributes scope attributes).run session).2 := by
  match attributes with
  | [] => exact .refl h
  | ⟨_, _, value⟩ :: rest =>
      have hvalue := lays_walk value h hscope
      exact hvalue.step hscope (lays_walkAttributes rest)

theorem lays_walkOverrides {scope : ScopeId} (overrides : List (Override Expr))
    {session : Session Layout} (h : Kept session)
    (hscope : scope.index < session.tree.scopes.size) :
    Lays (Expr.nodesOfOverrides overrides) (Expr.nodesOfOverrides overrides) session
      ((walkOverrides scope overrides).run session).2 := by
  match overrides with
  | [] => exact .refl h
  | ⟨_, _, none, value⟩ :: rest =>
      have hvalue := lays_walk value h hscope
      exact hvalue.step hscope (lays_walkOverrides rest)
  | ⟨_, _, some replaced, value⟩ :: rest =>
      have hopened := lays_openInside h hscope value.span false
      have hreplaced := hopened.trans
        (lays_nameReplaced hopened.kept session.tree.nextScope replaced)
      have hinner : session.tree.scopes.size < ((session.tree.openInside scope value.span
          false).nameReplaced session.tree.nextScope replaced).scopes.size := by
        simp [ScopeTree.nameReplaced, ScopeTree.define, ScopeTree.setEntry]
      have hvalue := hreplaced.trans (lays_walk value hreplaced.kept hinner)
      exact hvalue.step hscope (lays_walkOverrides rest)

end

/-! ## Whole units -/

/-- The session of a unit of which only the outermost scope has been opened. -/
def rooted (unit : Expr) (file : String) (topLevel : Bool) : Session Layout :=
  ⟨(∅ : ScopeTree).openRoot unit.span topLevel, .new file, [], ∅⟩

theorem kept_rooted (unit : Expr) (file : String) (topLevel : Bool) :
    Kept (rooted unit file topLevel) := by
  refine ⟨ScopeTree.formed_empty.openRoot unit.span topLevel, fun _ _ => rfl, rfl,
    Reporter.counts_new file, fun _ h => (by cases h), fun _ _ h => (by cases h), fun scope => ?_⟩
  have hscope := ScopeTree.scope_openRoot ∅ unit.span topLevel scope
  unfold rooted
  dsimp only
  rw [hscope]
  split
  · rfl
  · rw [ScopeTree.scope_of_size_le (Nat.zero_le _)]
    rfl

theorem lays_ofUnit (unit : Expr) (file : String) (topLevel : Bool) :
    Lays unit.nodes unit.nodes (rooted unit file topLevel) (ofUnit unit file topLevel) := by
  have hscope : root.index < (rooted unit file topLevel).tree.scopes.size := Nat.one_pos
  have hwalked := lays_walk unit (kept_rooted unit file topLevel) hscope
  have hasked := hwalked.trans (lays_demand hwalked.kept root [.node unit.id .any])
  exact hasked.of_eq (by simp) (by simp)

variable (unit : Expr) (file : String) (topLevel : Bool)

theorem kept_ofUnit : Kept (ofUnit unit file topLevel) := (lays_ofUnit unit file topLevel).kept

variable {unit file topLevel}

theorem found_ofUnit {id : NodeId} {placement : Placement}
    (h : (ofUnit unit file topLevel).defs.nodes.find? id = some placement) :
    placement.expr ∈ unit.nodes ∧ placement.expr.id = id ∧
      placement.scope.index < (ofUnit unit file topLevel).tree.scopes.size ∧
        (placement.expr.IsLookup → id ∈ (ofUnit unit file topLevel).defs.lookups) := by
  rcases (lays_ofUnit unit file topLevel).found id placement h with hnone | hfound
  · cases hnone
  · exact hfound

/-- Every node of a unit is where the layout says it is. -/
theorem placed_ofUnit (hdistinct : unit.Distinct) {node : Expr} (hnode : node ∈ unit.nodes) :
    ∃ scope, (ofUnit unit file topLevel).defs.nodes.find? node.id = some ⟨node, scope⟩ := by
  obtain ⟨placement, hplacement⟩ :=
    Option.isSome_iff_exists.mp ((lays_ofUnit unit file topLevel).placed node hnode)
  obtain ⟨hmem, hid, -⟩ := found_ofUnit hplacement
  obtain ⟨expr, scope⟩ := placement
  obtain rfl : expr = node := List.inj_on_of_nodup_map hdistinct hmem hnode hid
  exact ⟨scope, hplacement⟩

theorem asked_ofUnit {construct : Expr} (hconstruct : construct ∈ unit.nodes)
    (hasks : construct.asks ≠ []) :
    ∃ scope, ⟨scope, construct.asks⟩ ∈ (ofUnit unit file topLevel).defs.demands :=
  (lays_ofUnit unit file topLevel).asked construct hconstruct hasks

end Survey

end FrameLang
