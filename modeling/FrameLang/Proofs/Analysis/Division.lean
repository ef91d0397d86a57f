import FrameLang.Proofs.Analysis.Sides
import FrameLang.Proofs.Analysis.Survey

/-!
# How a construct divides a unit

A construct that masks what is inherited divides the scopes of a unit: some are inside
the scope that it opens, and the others are not.  Nodes are evaluated on their own side,
and names belong to the side of the node that they are bound to (`Survey.Divided`).

## Strategy

Nothing is inside before the construct has been met, and the scope that it opens is a
new one then, so no scope ever changes sides (`Survey.Divides`).  The walk over an
expression is followed on the side that its scope is on (`Survey.Ready`), and the only
step that leads inside is the one that opens the scope of the construct
(`Survey.Dividing.inside`).
-/

namespace FrameLang

namespace Survey

open ScopeM

/-! ## Inside and outside -/

section Sides

variable (node : NodeId)

/-- A scope is inside the one that a construct has opened. -/
def Hides (session : Session Layout) (scope : ScopeId) : Prop :=
  ∃ inner, session.defs.opened.find? node = some inner ∧ inner ∈ session.tree.chain scope

variable (all : List (Expr × Bool))

/-- A node belongs into a scope: both are inside, or both are outside. -/
def Seated (session : Session Layout) (id : NodeId) (scope : ScopeId) : Prop :=
  ∃ expr side, (expr, side) ∈ all ∧ expr.id = id ∧ scope.index < session.tree.scopes.size ∧
    (Hides node session scope ↔ side = true)

/-- A part of the walk, in which some nodes have been met, has put everything on its side. -/
structure Divides (part : List NodeId) (before after : Session Layout) : Prop where
  formed : after.tree.Formed
  retains : before.tree.Retains after.tree
  delegates : ∀ scope, scope.index < before.tree.scopes.size →
    (after.tree.scope scope).delegates = (before.tree.scope scope).delegates
  hides_iff : ∀ scope, scope.index < before.tree.scopes.size →
    (Hides node after scope ↔ Hides node before scope)
  unmet : node ∉ part → after.defs.opened.find? node = before.defs.opened.find? node
  met : node ∈ part → ∃ inner, after.defs.opened.find? node = some inner ∧
    inner.index < after.tree.scopes.size ∧ (after.tree.scope inner).delegates = false
  found : ∀ id placement, after.defs.nodes.find? id = some placement →
    before.defs.nodes.find? id = some placement ∨ Seated node all after id placement.scope
  bound : ∀ name value kinds, before.tree.names.size ≤ name.index →
    (after.tree.name name).origin = .bound value kinds →
      ∃ scope, (after.tree.name name).scope? = some scope ∧ Seated node all after value scope

/-- The walk is about to meet some nodes, in a scope of which the side is known. -/
structure Ready (part : List NodeId) (side : Bool) (scope : ScopeId) (session : Session Layout) :
    Prop where
  formed : session.tree.Formed
  lt_size : scope.index < session.tree.scopes.size
  hides_iff : Hides node session scope ↔ side = true
  known : ∀ inner, session.defs.opened.find? node = some inner →
    inner.index < session.tree.scopes.size
  fresh : node ∈ part → session.defs.opened.find? node = none

/-- A step of the walk that meets some nodes, each of them once, and puts everything on its side. -/
def Dividing (part : List NodeId) (side : Bool) (scope : ScopeId) (step : ScopeM Layout Unit) :
    Prop :=
  part.Nodup → ∀ session, Ready node part side scope session →
    Divides node all part session (step.run session).2

end Sides

variable {node : NodeId} {all : List (Expr × Bool)} {part part' : List NodeId} {side : Bool}
  {scope : ScopeId} {first second third session : Session Layout}

theorem Seated.after (h : Divides node all part first second) {id : NodeId}
    (hseated : Seated node all first id scope) : Seated node all second id scope := by
  obtain ⟨expr, side, hmem, hid, hscope, hhides⟩ := hseated
  exact ⟨expr, side, hmem, hid, Nat.lt_of_lt_of_le hscope h.retains.size_scopes,
    (h.hides_iff scope hscope).trans hhides⟩

theorem Divides.trans (h : Divides node all part first second)
    (h' : Divides node all part' second third) : Divides node all (part ++ part') first third where
  formed := h'.formed
  retains := h.retains.trans h'.retains
  delegates scope hscope :=
    (h'.delegates scope (Nat.lt_of_lt_of_le hscope h.retains.size_scopes)).trans
      (h.delegates scope hscope)
  hides_iff scope hscope :=
    (h'.hides_iff scope (Nat.lt_of_lt_of_le hscope h.retains.size_scopes)).trans
      (h.hides_iff scope hscope)
  unmet hnot := by
    rw [List.mem_append, not_or] at hnot
    exact (h'.unmet hnot.2).trans (h.unmet hnot.1)
  met hmem := by
    by_cases hpart' : node ∈ part'
    · exact h'.met hpart'
    · obtain ⟨inner, hinner, hlt, hdelegates⟩ :=
        h.met ((List.mem_append.mp hmem).resolve_right hpart')
      exact ⟨inner, (h'.unmet hpart').trans hinner, Nat.lt_of_lt_of_le hlt h'.retains.size_scopes,
        (h'.delegates inner hlt).trans hdelegates⟩
  found id placement hid := by
    rcases h'.found id placement hid with hid | hseated
    · exact (h.found id placement hid).imp_right (.after h')
    · exact .inr hseated
  bound name value kinds hnew horigin := by
    by_cases hlt : name.index < second.tree.names.size
    · have hgrows := h'.retains.name name hlt
      obtain ⟨kinds', horigin'⟩ := hgrows.origin.exists_bound_iff.mp ⟨kinds, horigin⟩
      obtain ⟨scope, hscope, hseated⟩ := h.bound name value kinds' hnew horigin'
      exact ⟨scope, hgrows.scope?.trans hscope, hseated.after h'⟩
    · exact h'.bound name value kinds (Nat.le_of_not_lt hlt) horigin

/-- The side of a scope does not change, and what has not been met is still new. -/
theorem Ready.after (h : Divides node all part first second)
    (hready : Ready node (part ++ part') side scope first) (hnodup : (part ++ part').Nodup) :
    Ready node part' side scope second := by
  refine ⟨h.formed, Nat.lt_of_lt_of_le hready.lt_size h.retains.size_scopes,
    (h.hides_iff scope hready.lt_size).trans hready.hides_iff, fun inner hinner => ?_,
    fun hmem => ?_⟩
  · by_cases hpart : node ∈ part
    · obtain ⟨other, hother, hlt, -⟩ := h.met hpart
      obtain rfl := Option.some.inj (hother.symm.trans hinner)
      exact hlt
    · exact Nat.lt_of_lt_of_le (hready.known inner ((h.unmet hpart).symm.trans hinner))
        h.retains.size_scopes
  · have hnot : node ∉ part :=
      fun hpart => (List.nodup_append.mp hnodup).2.2 node hpart node hmem rfl
    exact (h.unmet hnot).trans (hready.fresh (List.mem_append_right _ hmem))

theorem Ready.of_append (h : Ready node (part ++ part') side scope first) :
    Ready node part side scope first :=
  { h with fresh := fun hmem => h.fresh (List.mem_append_left _ hmem) }

/-! ## The steps of the walk -/

/-- A step that leaves the table of opened scopes alone, and the scopes where they are. -/
theorem Divides.of_same (hformed : second.tree.Formed) (hretains : first.tree.Retains second.tree)
    (hscopes : second.tree.scopes.size = first.tree.scopes.size)
    (hdelegates : ∀ scope, (second.tree.scope scope).delegates = (first.tree.scope scope).delegates)
    (hopened : second.defs.opened = first.defs.opened)
    (hfound : ∀ id placement, second.defs.nodes.find? id = some placement →
      first.defs.nodes.find? id = some placement ∨ Seated node all first id placement.scope)
    (hbound : ∀ name value kinds, first.tree.names.size ≤ name.index →
      (second.tree.name name).origin = .bound value kinds →
        ∃ scope, (second.tree.name name).scope? = some scope ∧ Seated node all first value scope) :
    Divides node all [] first second := by
  have hhides : ∀ scope, scope.index < first.tree.scopes.size →
      (Hides node second scope ↔ Hides node first scope) := by
    intro scope hscope
    rw [Hides, Hides, hopened, hretains.chain hscope]
  have hseated : ∀ id scope, Seated node all first id scope → Seated node all second id scope := by
    rintro id scope ⟨expr, side, hmem, hid, hscope, hside⟩
    exact ⟨expr, side, hmem, hid, hscopes ▸ hscope, (hhides scope hscope).trans hside⟩
  refine ⟨hformed, hretains, fun scope _ => hdelegates scope, hhides, fun _ => by rw [hopened],
    fun hmem => (by cases hmem), fun id placement hid => ?_,
    fun name value kinds hnew horigin => ?_⟩
  · exact (hfound id placement hid).imp_right (hseated id placement.scope)
  · obtain ⟨scope, hscope, hbound⟩ := hbound name value kinds hnew horigin
    exact ⟨scope, hscope, hseated value scope hbound⟩

/-- A step that does not touch the tree either. -/
theorem Divides.of_defs (hformed : session.tree.Formed) {layout : Layout}
    (hopened : layout.opened = session.defs.opened)
    (hfound : ∀ id placement, layout.nodes.find? id = some placement →
      session.defs.nodes.find? id = some placement ∨ Seated node all session id placement.scope) :
    Divides node all [] session (session.withDefs layout) := by
  refine .of_same hformed (.refl _) rfl (fun _ => rfl) hopened hfound ?_
  intro name value kinds hnew horigin
  rw [Session.withDefs, ScopeTree.name_of_size_le hnew] at horigin
  cases horigin

theorem Divides.reporting (hformed : session.tree.Formed) (reporter : Reporter) :
    Divides node all [] session (session.reporting reporter) := by
  refine .of_same hformed (.refl _) rfl (fun _ => rfl) rfl (fun _ _ => .inl) ?_
  intro name value kinds hnew horigin
  rw [Session.reporting, ScopeTree.name_of_size_le hnew] at horigin
  cases horigin

theorem delegates_setEntry (tree : ScopeTree) (scope : ScopeId) (name : String)
    (entry : Option NameId) (other : ScopeId) :
    ((tree.setEntry scope name entry).scope other).delegates = (tree.scope other).delegates := by
  unfold ScopeTree.setEntry
  rw [ScopeTree.scope_recording, ScopeTree.scope_modifyScope]
  split
  · next heq => rw [← heq.1]
  · rfl

theorem Divides.forbid (hformed : session.tree.Formed) (scope : ScopeId) (name : String) :
    Divides node all [] session (session.withTree (session.tree.forbid scope name)) := by
  refine .of_same (hformed.setEntry fun _ heq => by cases heq) (ScopeTree.retains_setEntry ..)
    (ScopeTree.size_scopes_modifyScope ..) (delegates_setEntry _ _ _ _) rfl (fun _ _ => .inl) ?_
  intro bound value kinds hnew horigin
  have hname : (session.tree.forbid scope name).name bound = session.tree.name bound := rfl
  rw [Session.tree_withTree, hname, ScopeTree.name_of_size_le hnew] at horigin
  cases horigin

/-- A name that is not inherited; if it is bound to a node, that node belongs into its scope. -/
theorem Divides.define (hformed : session.tree.Formed) (name : String) {origin : Origin}
    (hlive : origin ≠ .junk) (hsource : origin.source? = none) (hknown : origin.known ≠ ∅)
    (hseated : ∀ value kinds, origin = .bound value kinds → Seated node all session value scope)
    {layout : Layout} (hopened : layout.opened = session.defs.opened)
    (hnodes : layout.nodes = session.defs.nodes) :
    Divides node all [] session
      ((session.withTree (session.tree.define scope name origin)).withDefs layout) := by
  refine .of_same (hformed.define hlive (session.tree.fits_own scope name hsource hknown))
    (ScopeTree.retains_define ..) (ScopeTree.size_scopes_modifyScope ..)
    (delegates_setEntry _ _ _ _) hopened (fun _ _ hid => .inl (hnodes ▸ hid)) ?_
  intro bound value kinds hnew horigin
  have hname : (session.tree.define scope name origin).name bound =
      (session.tree.addName (.new name (some scope) origin)).name bound := rfl
  rw [Session.withDefs, Session.tree_withTree, hname, ScopeTree.name_addName] at horigin ⊢
  split at horigin
  · next heq =>
    rw [if_pos heq]
    exact ⟨scope, rfl, hseated value kinds horigin⟩
  · rw [ScopeTree.name_of_size_le hnew] at horigin
    cases horigin

section Opening

variable {outer : ScopeId} (hready : Ready node part side outer session) (span : Span)
  (delegates : Bool) {own : Bool} (hpart : node ∈ part ↔ own = true) {layout : Layout}
  (hopened : layout.opened.find? node =
    if own then some session.tree.nextScope else session.defs.opened.find? node)
include hready hpart hopened

/-- Nothing that is there changes sides when a scope is opened. -/
theorem hides_iff_of_opened (hlt : scope.index < session.tree.scopes.size) :
    Hides node ((session.withTree (session.tree.openInside outer span delegates)).withDefs layout)
      scope ↔ Hides node session scope := by
  have hretains := ScopeTree.retains_openInside hready.lt_size span delegates
  unfold Hides Session.withDefs
  rw [hopened, Session.tree_withTree, hretains.chain hlt]
  split
  -- the construct has opened nothing before, and no scope is inside of a new one yet
  · next hown =>
    rw [hready.fresh (hpart.mpr hown)]
    constructor
    · rintro ⟨inner, heq, hmem⟩
      obtain rfl := Option.some.inj heq
      exact absurd hmem (hready.formed.nextScope_not_mem_chain hlt)
    · rintro ⟨inner, heq, -⟩
      cases heq
  · rfl

omit hpart in
/-- A new scope is on the side of the scope around it, except for the scope of the construct, which
is inside. -/
theorem hides_nextScope_iff :
    Hides node ((session.withTree (session.tree.openInside outer span delegates)).withDefs layout)
      session.tree.nextScope ↔ (side || own) = true := by
  have hinner : (session.tree.openInside outer span delegates).chain session.tree.nextScope =
      session.tree.nextScope :: session.tree.chain outer := by
    rw [ScopeTree.chain, ScopeTree.scope_openInside hready.lt_size, if_pos rfl]
    rfl
  unfold Hides Session.withDefs
  rw [hopened, Session.tree_withTree, hinner]
  cases own with
  | true => simp
  | false =>
      rw [Bool.or_false, ← hready.hides_iff, if_neg Bool.false_ne_true]
      refine exists_congr fun inner => and_congr_right fun hinner => ?_
      rw [List.mem_cons, or_iff_right (ScopeTree.ne_nextScope (hready.known inner hinner))]

/-- To open a scope puts everything on its side. -/
theorem divides_opened (hdelegates : own = true → delegates = false)
    (hnodes : layout.nodes = session.defs.nodes) :
    Divides node all part session
      ((session.withTree (session.tree.openInside outer span delegates)).withDefs layout) := by
  have hscope := ScopeTree.scope_openInside hready.lt_size span delegates
  have hretains := ScopeTree.retains_openInside hready.lt_size span delegates
  refine ⟨hready.formed.openInside hready.lt_size span delegates, hretains, ?_,
    fun _ hlt => hides_iff_of_opened hready span delegates hpart hopened hlt, ?_, ?_,
    fun id placement hid => .inl (hnodes ▸ hid), ?_⟩
  · intro scope hlt
    rw [Session.withDefs, Session.tree_withTree, hscope, if_neg (ScopeTree.ne_nextScope hlt)]
    split
    · next heq => rw [heq]
    · rfl
  · intro hnot
    rw [Session.withDefs, hopened, if_neg fun hown => hnot (hpart.mpr hown)]
  · intro hmem
    have hown := hpart.mp hmem
    refine ⟨session.tree.nextScope, hopened.trans (if_pos hown), ?_, ?_⟩
    · rw [Session.withDefs, Session.tree_withTree, ScopeTree.size_scopes_openInside]
      exact Nat.lt_succ_self _
    · rw [Session.withDefs, Session.tree_withTree, hscope, if_pos rfl]
      exact hdelegates hown
  · intro name value kinds hlt horigin
    have hname : (session.tree.openInside outer span delegates).name name =
        session.tree.name name :=
      rfl
    rw [Session.withDefs, Session.tree_withTree, hname, ScopeTree.name_of_size_le hlt] at horigin
    cases horigin

end Opening

namespace Dividing

variable {step step' : ScopeM Layout Unit}

/-- The order in which nodes are met does not matter. -/
theorem of_perm (h : Dividing node all part side scope step) (hpart : part'.Perm part) :
    Dividing node all part' side scope step := by
  intro hnodup session hready
  have hdivides := h (hpart.nodup hnodup) session
    { hready with fresh := fun hmem => hready.fresh (hpart.mem_iff.mpr hmem) }
  exact { hdivides with
    unmet := fun hnot => hdivides.unmet fun hmem => hnot (hpart.mem_iff.mpr hmem)
    met := fun hmem => hdivides.met (hpart.mem_iff.mp hmem) }

theorem andThen (h : Dividing node all part side scope step)
    (h' : Dividing node all part' side scope step') :
    Dividing node all (part ++ part') side scope (step >>= fun _ => step') := by
  intro hnodup session hready
  have hfirst := h (List.nodup_append.mp hnodup).1 session hready.of_append
  exact hfirst.trans (h' (List.nodup_append.mp hnodup).2.1 _ (hready.after hfirst hnodup))

/-- Nodes other than the construct open nothing that matters. -/
theorem meet (h : Dividing node all part side scope step) {id : NodeId} (hne : id ≠ node) :
    Dividing node all (id :: part) side scope step := by
  intro hnodup session hready
  have hdivides := h hnodup.of_cons session
    { hready with fresh := fun hmem => hready.fresh (List.mem_cons_of_mem _ hmem) }
  exact { hdivides with
    unmet := fun hnot => hdivides.unmet fun hmem => hnot (List.mem_cons_of_mem _ hmem)
    met := fun hmem => hdivides.met ((List.mem_cons.mp hmem).resolve_left (Ne.symm hne)) }

theorem place {expr : Expr} (hmem : (expr, side) ∈ all) :
    Dividing node all [] side scope (modifyDefs fun layout => layout.place expr scope) := by
  intro _ session hready
  refine .of_defs hready.formed rfl fun id placement hid => ?_
  have hid : (session.defs.nodes.insert expr.id ⟨expr, scope⟩).find? id = some placement := hid
  rw [Table.find?_insert] at hid
  split at hid
  · next heq =>
    obtain rfl := Option.some.inj hid
    exact .inr ⟨expr, side, hmem, heq, hready.lt_size, hready.hides_iff⟩
  · exact .inl hid

theorem addLookup (id : NodeId) :
    Dividing node all [] side scope (modifyDefs fun layout => layout.addLookup id) :=
  fun _ _ hready => .of_defs hready.formed rfl fun _ _ => .inl

theorem ask (asking : ScopeId) (asks : List Ask) :
    Dividing node all [] side scope (Survey.ask asking asks) :=
  fun _ _ hready => .of_defs hready.formed rfl fun _ _ => .inl

theorem declare {value : Expr} (hmem : (value, side) ∈ all) (name : String) (span : Span) :
    Dividing node all [] side scope (Survey.bind scope name value.id span) := by
  intro _ session hready
  unfold Survey.bind ScopeTree.bind?
  rw [run_bind, run_tree]
  dsimp only
  cases session.tree.meaning? scope name with
  | some entry => exact .reporting hready.formed _
  | none =>
      have hknown : (Origin.bound value.id .any).known ≠ ∅ := (by decide : Kinds.any ≠ ∅)
      refine .define hready.formed name (by simp) rfl hknown ?_ rfl rfl
      rintro other kinds heq
      obtain ⟨rfl, -⟩ := Origin.bound.inj heq
      exact ⟨value, side, hmem, rfl, hready.lt_size, hready.hides_iff⟩

theorem forM {γ : Type} {step : γ → ScopeM Layout PUnit} (items : List γ)
    (h : ∀ item ∈ items, Dividing node all [] side scope (step item)) :
    Dividing node all [] side scope (items.forM step) := by
  induction items with
  | nil => exact fun _ _ hready => .of_defs hready.formed rfl fun _ _ => .inl
  | cons item rest ih =>
      exact (h item List.mem_cons_self).andThen
        (ih fun other hother => h other (List.mem_cons_of_mem _ hother))

theorem bindAttributes {attributes : List (Attribute Expr)}
    (hall : Expr.sidedAttributes node side attributes ⊆ all) :
    Dividing node all [] side scope (bindAttributes scope attributes) :=
  forM attributes fun item hitem =>
    declare (hall (Expr.value_mem_sidedAttributes node hitem)) item.name item.span

theorem bindOverrides {overrides : List (Override Expr)}
    (hall : Expr.sidedOverrides node side overrides ⊆ all) :
    Dividing node all [] side scope (bindOverrides scope overrides) :=
  forM overrides fun item hitem =>
    declare (hall (Expr.value_mem_sidedOverrides node hitem)) item.name item.span

theorem nameReplaced (name : String) : Dividing node all [] side scope
    (modifyTree fun tree => tree.nameReplaced scope name) := by
  intro _ session hready
  exact .define hready.formed name (by simp) rfl (by decide) (fun _ _ heq => by cases heq) rfl rfl

theorem forbidAll (names : List String) : Dividing node all [] side scope
    (names.forM fun name => modifyTree fun tree => tree.forbid scope name) :=
  forM names fun name _ _ _ hready => .forbid hready.formed scope name

/-- Whatever is laid out inside a scope that has just been opened. -/
theorem opened {body : ScopeId → ScopeM Layout Unit} (own : Bool)
    (hbody : ∀ inner, Dividing node all part' (side || own) inner (body inner))
    (hpart : node ∈ part ↔ own = true) (hnodup : (part ++ part').Nodup)
    (hready : Ready node (part ++ part') side scope session) (span : Span) {delegates : Bool}
    (hdelegates : own = true → delegates = false) {layout : Layout}
    (hnodes : layout.nodes = session.defs.nodes)
    (hopened : layout.opened.find? node =
      if own then some session.tree.nextScope else session.defs.opened.find? node) :
    Divides node all (part ++ part') session ((body session.tree.nextScope).run
      ((session.withTree (session.tree.openInside scope span delegates)).withDefs layout)).2 := by
  have hdivides := @divides_opened node all part side session scope hready.of_append span delegates
    own hpart layout hopened hdelegates hnodes
  have hside := hides_nextScope_iff hready.of_append span delegates hopened
  have hlt : session.tree.nextScope.index <
      (session.tree.openInside scope span delegates).scopes.size := by
    rw [ScopeTree.size_scopes_openInside]
    exact Nat.lt_succ_self _
  exact hdivides.trans (hbody _ (List.nodup_append.mp hnodup).2.1 _
    { hready.after hdivides hnodup with lt_size := hlt, hides_iff := hside })

/-- A scope that is opened apart from any construct stays on its side. -/
theorem apart {body : ScopeId → ScopeM Layout Unit}
    (hbody : ∀ inner, Dividing node all part side inner (body inner)) (span : Span)
    (delegates : Bool) :
    Dividing node all part side scope (openInside scope span delegates >>= body) := by
  intro hnodup session hready
  exact @opened node all [] part side scope session body false (by rwa [Bool.or_false]) (by simp)
    hnodup hready span delegates (fun h => by cases h) session.defs rfl rfl

/-- Whatever is in the scope of the construct is inside. -/
theorem inside {body : ScopeId → ScopeM Layout Unit} {mark : Mark} {delegates : Bool}
    (hdelegates : mark.id = node → delegates = false)
    (hbody : ∀ inner, Dividing node all part (side || mark.id = node) inner (body inner)) :
    Dividing node all (mark.id :: part) side scope (openFor mark scope delegates >>= body) := by
  intro hnodup session hready
  refine @opened node all [mark.id] part side scope session body (mark.id = node) hbody ?_
    hnodup hready mark.span delegates (fun h => hdelegates (of_decide_eq_true h))
    (session.defs.openAt mark.id session.tree.nextScope) rfl ?_
  · rw [List.mem_singleton, decide_eq_true_eq, eq_comm]
  · rw [Layout.openAt, Table.find?_insert]
    simp only [decide_eq_true_eq]

end Dividing

/-! ## The walk -/

mutual

/-- The walk over an expression puts everything on its side. -/
theorem dividing_walk (hmasks : ∀ expr side, (expr, side) ∈ all → expr.id = node → expr.Masks)
    (scope : ScopeId) (side : Bool) (expr : Expr) (hall : expr.sided node side ⊆ all) :
    Dividing node all (expr.nodes.map Expr.id) side scope (walk scope expr) := by
  match expr with
  | .literal mark value =>
      have hself := hall List.mem_cons_self
      exact (Dividing.place hself).meet fun heq => hmasks _ _ hself heq
  | .lookup mark path =>
      have hself := hall List.mem_cons_self
      exact ((Dividing.place hself).andThen (.addLookup mark.id)).meet
        fun heq => hmasks _ _ hself heq
  | .coalesce mark primary fallback =>
      simp only [Expr.sided, List.cons_subset, List.append_subset] at hall
      obtain ⟨hself, hprimary, hfallback⟩ := hall
      have hoperands := (dividing_walk hmasks scope side primary hprimary).andThen
        (dividing_walk hmasks scope side fallback hfallback)
      exact (((Dividing.place hself).andThen hoperands).meet
        fun heq => hmasks _ _ hself heq).of_perm (by simp [Expr.nodes, Expr.id, Expr.mark])
  | .conditional mark condition consequent alternative =>
      simp only [Expr.sided, List.cons_subset, List.append_subset] at hall
      obtain ⟨hself, ⟨hcondition, hconsequent⟩, halternative⟩ := hall
      have hbranches := (dividing_walk hmasks scope side consequent hconsequent).andThen
        ((dividing_walk hmasks scope side alternative halternative).andThen
          (.ask scope [.node condition.id {.bool}]))
      have hoperands := (dividing_walk hmasks scope side condition hcondition).andThen hbranches
      exact (((Dividing.place hself).andThen hoperands).meet
        fun heq => hmasks _ _ hself heq).of_perm (by simp [Expr.nodes, Expr.id, Expr.mark])
  | .arithmetic mark operator left right =>
      simp only [Expr.sided, List.cons_subset, List.append_subset] at hall
      obtain ⟨hself, hleft, hright⟩ := hall
      have hoperands := (dividing_walk hmasks scope side left hleft).andThen
        ((dividing_walk hmasks scope side right hright).andThen (.ask scope [.node mark.id .any]))
      exact (((Dividing.place hself).andThen hoperands).meet
        fun heq => hmasks _ _ hself heq).of_perm (by simp [Expr.nodes, Expr.id, Expr.mark])
  | .enforce mark value kinds =>
      simp only [Expr.sided, List.cons_subset] at hall
      obtain ⟨hself, hvalue⟩ := hall
      have hoperand := (dividing_walk hmasks scope side value hvalue).andThen
        (.ask scope [.node mark.id .any])
      exact (((Dividing.place hself).andThen hoperand).meet
        fun heq => hmasks _ _ hself heq).of_perm (by simp [Expr.nodes, Expr.id, Expr.mark])
  | .frame mark attributes | .template mark attributes =>
      simp only [Expr.sided, List.cons_subset] at hall
      obtain ⟨hself, hattributes⟩ := hall
      have hopened := fun inner => (Dividing.bindAttributes hattributes).andThen
        ((dividing_walkAttributes hmasks inner _ attributes hattributes).andThen
          (.ask inner (asksOfAttributes attributes)))
      exact ((Dividing.place hself).andThen (.inside (fun _ => rfl) hopened)).of_perm
        (by simp [Expr.nodes, Expr.id, Expr.mark])
  | .letIn mark bindings body =>
      simp only [Expr.sided, List.cons_subset, List.append_subset] at hall
      obtain ⟨hself, hbindings, hbody⟩ := hall
      -- bindings are not masked, so this is not the construct and its scope stays on the side
      have hne : mark.id ≠ node := fun heq => hmasks _ _ hself heq
      have hside : (side || decide (mark.id = node)) = side := by simp [hne]
      rw [← hside] at hbindings hbody
      have hopened := fun inner => (Dividing.bindAttributes hbindings).andThen
        ((dividing_walkAttributes hmasks inner _ bindings hbindings).andThen
          ((dividing_walk hmasks inner _ body hbody).andThen
            (.ask inner (asksOfAttributes bindings))))
      exact ((Dividing.place hself).andThen (.inside (fun heq => absurd heq hne) hopened)).of_perm
        (by simp [Expr.nodes, Expr.id, Expr.mark])
  | .hide mark names body =>
      simp only [Expr.sided, List.cons_subset] at hall
      obtain ⟨hself, hbody⟩ := hall
      have hne : mark.id ≠ node := fun heq => hmasks _ _ hself heq
      have hside : (side || decide (mark.id = node)) = side := by simp [hne]
      rw [← hside] at hbody
      have hopened := fun inner =>
        (Dividing.forbidAll names).andThen (dividing_walk hmasks inner _ body hbody)
      exact ((Dividing.place hself).andThen (.inside (fun heq => absurd heq hne) hopened)).of_perm
        (by simp [Expr.nodes, Expr.id, Expr.mark])
  | .instantiate mark base overrides =>
      simp only [Expr.sided, List.cons_subset, List.append_subset] at hall
      obtain ⟨hself, hbase, hoverrides⟩ := hall
      have hopened := fun inner => (Dividing.bindOverrides hoverrides).andThen
        ((dividing_walkOverrides hmasks inner _ overrides hoverrides).andThen
          (.ask inner (.node base.id {.template} :: asksOfOverrides overrides)))
      have hoperands := (dividing_walk hmasks scope side base hbase).andThen
        (.inside (fun _ => rfl) hopened)
      -- the base is met before the scope is opened
      refine ((Dividing.place hself).andThen hoperands).of_perm ?_
      simpa [Expr.nodes, Expr.id, Expr.mark] using List.perm_middle.symm

theorem dividing_walkAttributes
    (hmasks : ∀ expr side, (expr, side) ∈ all → expr.id = node → expr.Masks) (scope : ScopeId)
    (side : Bool) (attributes : List (Attribute Expr))
    (hall : Expr.sidedAttributes node side attributes ⊆ all) :
    Dividing node all ((Expr.nodesOfAttributes attributes).map Expr.id) side scope
      (walkAttributes scope attributes) := by
  match attributes with
  | [] => exact fun _ _ hready => .of_defs hready.formed rfl fun _ _ => .inl
  | ⟨_, _, value⟩ :: rest =>
      rw [Expr.sidedAttributes, List.append_subset] at hall
      exact ((dividing_walk hmasks scope side value hall.1).andThen
        (dividing_walkAttributes hmasks scope side rest hall.2)).of_perm (.of_eq List.map_append)

theorem dividing_walkOverrides
    (hmasks : ∀ expr side, (expr, side) ∈ all → expr.id = node → expr.Masks) (scope : ScopeId)
    (side : Bool) (overrides : List (Override Expr))
    (hall : Expr.sidedOverrides node side overrides ⊆ all) :
    Dividing node all ((Expr.nodesOfOverrides overrides).map Expr.id) side scope
      (walkOverrides scope overrides) := by
  match overrides with
  | [] => exact fun _ _ hready => .of_defs hready.formed rfl fun _ _ => .inl
  | ⟨_, _, none, value⟩ :: rest =>
      rw [Expr.sidedOverrides, List.append_subset] at hall
      exact ((dividing_walk hmasks scope side value hall.1).andThen
        (dividing_walkOverrides hmasks scope side rest hall.2)).of_perm (.of_eq List.map_append)
  | ⟨_, _, some replaced, value⟩ :: rest =>
      rw [Expr.sidedOverrides, List.append_subset] at hall
      exact ((Dividing.apart (fun inner => (Dividing.nameReplaced replaced).andThen
        (dividing_walk hmasks inner side value hall.1)) value.span false).andThen
          (dividing_walkOverrides hmasks scope side rest hall.2)).of_perm (.of_eq List.map_append)

end

/-! ## Whole units -/

/-- The scope that a construct has opened divides the scopes of a unit as the construct divides its
nodes. -/
structure Divided (unit : Expr) (node : NodeId) (inner : ScopeId) (session : Session Layout) :
    Prop where
  opened : session.defs.opened.find? node = some inner
  masks : (session.tree.scope inner).delegates = false
  placed : ∀ id placement, session.defs.nodes.find? id = some placement →
    (inner ∈ session.tree.chain placement.scope ↔ unit.Encloses node id)
  bound : ∀ name value kinds, (session.tree.name name).origin = .bound value kinds →
    ∃ scope, (session.tree.name name).scope? = some scope ∧
      (inner ∈ session.tree.chain scope ↔ unit.Encloses node value)

theorem ready_rooted (node : NodeId) (part : List NodeId) (unit : Expr) (file : String)
    (topLevel : Bool) : Ready node part false root (rooted unit file topLevel) := by
  refine ⟨(kept_rooted unit file topLevel).formed, Nat.one_pos, ?_, fun inner hinner => ?_,
    fun _ => rfl⟩
  · exact iff_of_false (fun ⟨inner, hinner, _⟩ => by cases hinner) Bool.false_ne_true
  · cases hinner

theorem divided_ofUnit {unit construct : Expr} (hdistinct : unit.Distinct)
    (hconstruct : construct ∈ unit.nodes) (hmasks : construct.Masks) (file : String)
    (topLevel : Bool) : ∃ inner, Divided unit construct.id inner (ofUnit unit file topLevel) := by
  have hmasks' : ∀ expr side, (expr, side) ∈ unit.sided construct.id false →
      expr.id = construct.id → expr.Masks := by
    intro expr side hmem hid
    have hexpr : expr ∈ unit.nodes :=
      Expr.map_fst_sided construct.id false unit ▸ List.mem_map_of_mem hmem
    obtain rfl := List.inj_on_of_nodup_map hdistinct hexpr hconstruct hid
    exact hmasks
  have hdivides : Divides construct.id (unit.sided construct.id false) _ (rooted unit file topLevel)
      (ofUnit unit file topLevel) :=
    (((dividing_walk hmasks' root false unit (List.Subset.refl _)).andThen
      (.ask root [.node unit.id .any])) (by rwa [List.append_nil]) _
        (ready_rooted construct.id _ unit file topLevel))
  obtain ⟨inner, hopened, -, hdelegates⟩ :=
    hdivides.met (List.mem_append_left _ (List.mem_map_of_mem hconstruct))
  have hside : ∀ id scope, Seated construct.id (unit.sided construct.id false)
      (ofUnit unit file topLevel) id scope →
        (inner ∈ (ofUnit unit file topLevel).tree.chain scope ↔ unit.Encloses construct.id id) := by
    rintro id scope ⟨expr, side, hmem, rfl, -, hhides⟩
    rw [Expr.encloses_iff hdistinct hmem, ← hhides]
    constructor
    · exact fun hchain => ⟨inner, hopened, hchain⟩
    · rintro ⟨other, hother, hchain⟩
      obtain rfl := Option.some.inj (hopened.symm.trans hother)
      exact hchain
  refine ⟨inner, hopened, hdelegates, fun id placement hid => ?_,
    fun name value kinds horigin => ?_⟩
  · rcases hdivides.found id placement hid with hnone | hseated
    · cases hnone
    · exact hside id placement.scope hseated
  · obtain ⟨scope, hscope, hseated⟩ := hdivides.bound name value kinds (Nat.zero_le _) horigin
    exact ⟨scope, hscope, hside value scope hseated⟩

end Survey

end FrameLang
