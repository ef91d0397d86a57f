import FrameLang.Proofs.Analysis.Coverage
import FrameLang.Proofs.Analysis.Surroundings
import Mathlib.Data.Set.List

/-!
# What lookups mean

What a lookup means is written in the unit: it is decided by the innermost layer around
the lookup that says anything about its first component.  If that layer hides the
component, or if the lookup names nothing, the lookup goes wrong, and this is reported
once for each region and component.  Otherwise the entry of the component leads, copy
by copy and layer by layer, to what that layer declares, or to a free name if there is no
such layer (`Analysis.lookups_resolve_lexically`).

The lookups may be classified in any order; the walk classifies them in its own
(`analyse_eq_analyseIn`).

## Strategy

After the walk a scope says what the construct that opened it says.  An entry that is
added later is one that the scopes around entitle its scope to (`ScopeTree.Added`), and
neither the nearest declaration nor the nearest construct that hides a name is changed
by this.  So the entry of a name can be followed outwards along the layers, by induction
on them (`ScopeTree.leads_of_extends`).
-/

namespace FrameLang

/-! ## What the layers decide -/

namespace Layer

/-- What is wrong with looking up a path inside some layers, if anything is. -/
def fault? (layers : List Layer) (path : List String) (span : Span) : Option Finding :=
  match path with
  | [] => some (.emptyLookup span)
  | first :: _ =>
      if nearest? layers first = some .hidden then some (.forbiddenName span first) else none

theorem nearest?_cons (layer : Layer) (layers : List Layer) (name : String) :
    nearest? (layer :: layers) name = (layer.says? name).or (nearest? layers name) := by
  unfold nearest?
  rw [List.findSome?_cons]
  cases layer.says? name <;> rfl

end Layer

namespace ScopeTree

variable {base before after tree : ScopeTree}

/-- A chain of scopes says nothing about the names that its layers say nothing about, and forbids
those that they hide. -/
theorem Stands.nearest? (hformed : tree.Formed) {layers : List Layer} {scope : ScopeId}
    (h : tree.Stands layers scope) (name : String) :
    (tree.nearest? (tree.chain scope) name = none ↔ Layer.nearest? layers name = none) ∧
      (tree.nearest? (tree.chain scope) name = some none ↔
        Layer.nearest? layers name = some .hidden) := by
  induction layers generalizing scope with
  | nil =>
      obtain ⟨-, henclosing, hmeaning⟩ := h
      rw [chain, henclosing, nearest?_cons, hmeaning]
      exact ⟨iff_of_true rfl rfl, iff_of_false (fun heq => by cases heq) (fun heq => by cases heq)⟩
  | cons layer layers ih =>
      obtain ⟨hrepeats, -, outer, rest, henclosing, houter⟩ := h
      have ih := ih houter
      have hchain : tree.chain scope = scope :: tree.chain outer := by
        rw [chain, henclosing, chain, (hformed.enclosing scope outer rest henclosing).2]
      rw [hchain, nearest?_cons, Layer.nearest?_cons]
      have hrepeats := hrepeats name
      cases hsaid : layer.says? name with
      | none =>
          rw [hsaid] at hrepeats
          rw [show tree.meaning? scope name = none from hrepeats]
          exact ih
      | some saying =>
          rw [hsaid] at hrepeats
          cases saying with
          | hidden =>
              rw [show tree.meaning? scope name = some none from hrepeats]
              exact ⟨iff_of_false (by simp) (by simp), iff_of_true rfl rfl⟩
          | value node =>
              obtain ⟨id, kinds, hmeaning, -⟩ := hrepeats
              rw [hmeaning]
              exact ⟨iff_of_false (by simp) (by simp), iff_of_false (by simp) (by simp)⟩
          | replaced =>
              obtain ⟨id, kinds, hmeaning, -⟩ := hrepeats
              rw [hmeaning]
              exact ⟨iff_of_false (by simp) (by simp), iff_of_false (by simp) (by simp)⟩

theorem Stands.fault? (hformed : tree.Formed) {layers : List Layer} {scope : ScopeId}
    (h : tree.Stands layers scope) (path : List String) (span : Span) :
    tree.fault? (tree.chain scope) path span = Layer.fault? layers path span := by
  cases path with
  | nil => rfl
  | cons first rest => exact if_congr (h.nearest? hformed first).2 rfl rfl

/-! ## Entries that are added -/

/-- What a name means in a scope that has said nothing about it: a free name, if nothing further
out says anything either, or what the scope directly outside has. -/
inductive Added (base tree : ScopeTree) (scope : ScopeId) (name : String) (id : NameId) : Prop where
  | free {kinds : Kinds} (habsent : base.nearest? (base.chain scope) name = none)
      (horigin : (tree.name id).origin = .free kinds)
  | inherited {outer : ScopeId} {rest : List ScopeId} {source : NameId}
      (henclosing : (base.scope scope).enclosing = outer :: rest)
      (hsource : tree.meaning? outer name = some (some source))
      (horigin : (tree.name id).origin.source? = some source)

theorem Added.grows (hgrows : before.Grows after) {scope : ScopeId} {name : String} {id : NameId}
    (hid : id.index < before.names.size) (h : Added base before scope name id) :
    Added base after scope name id := by
  have horigins := (hgrows.name id hid).origin
  cases h with
  | free habsent horigin =>
      rw [horigin] at horigins
      cases hafter : (after.name id).origin with
      | free kinds => exact .free habsent hafter
      | _ =>
          rw [hafter] at horigins
          cases horigins
  | inherited henclosing hsource horigin =>
      exact .inherited henclosing (hgrows.meaning? hsource) (horigins.source?.trans horigin)

/-- What has been said about a name is said for good. -/
theorem Grows.nearest?_eq_none (hgrows : before.Grows after) {chain : List ScopeId} {name : String}
    (h : after.nearest? chain name = none) : before.nearest? chain name = none := by
  induction chain with
  | nil => rfl
  | cons here outer ih =>
      rw [nearest?_cons_eq_none] at h ⊢
      refine ⟨?_, ih h.2⟩
      cases hmeaning : before.meaning? here name with
      | none => rfl
      | some entry => cases h.1.symm.trans (hgrows.meaning? hmeaning)

/-- Every entry was there in the beginning, or has been added in a place where there was none. -/
theorem Extends.entry (h : base.Extends tree) {scope : ScopeId}
    (hlt : scope.index < base.scopes.size) {name : String} {id : NameId}
    (hmeaning : tree.meaning? scope name = some (some id)) :
    base.meaning? scope name = some (some id) ∨
      (base.meaning? scope name = none ∧ Added base tree scope name id) := by
  induction h generalizing scope name id with
  | refl => exact .inl hmeaning
  | @tail before after hbefore hstep ih =>
      obtain ⟨hformed, hstep⟩ := hstep
      have hbase := Extends.grows hbefore
      -- an entry that is not new has been dealt with
      have hold : before.meaning? scope name = some (some id) →
          base.meaning? scope name = some (some id) ∨
            (base.meaning? scope name = none ∧ Added base after scope name id) := by
        intro hbefore
        have hlive := (hformed.entry scope name id hbefore).1
        exact (ih hlt hbefore).imp_right fun ⟨hnone, hadded⟩ =>
          ⟨hnone, hadded.grows hstep.grows (lt_size_of_not_junk hlive)⟩
      cases hstep with
      | keep _ _ hat _ => exact hold ((hat (.entry scope name)).symm.trans hmeaning)
      | addChild => exact hold hmeaning
      | @define here other origin hscope hnew hentitled =>
          rw [meaning?_define hscope] at hmeaning
          split at hmeaning
          · next heq =>
            obtain ⟨rfl, rfl⟩ := heq
            obtain rfl := Option.some.inj (Option.some.inj hmeaning)
            have hnone : base.meaning? here other = none := by
              cases hentry : base.meaning? here other with
              | none => rfl
              | some entry => cases hnew.symm.trans (hbase.meaning? hentry)
            have horigin : ((before.define here other origin).name before.nextName).origin =
                origin := by
              have hname : (before.define here other origin).name before.nextName =
                  .new other (some here) origin := name_addName_self ..
              rw [hname]
              rfl
            refine .inr ⟨hnone, ?_⟩
            have henclosing := (hbase.scope here hlt).enclosing
            cases hentitled with
            | free habsent =>
                refine .free ?_ horigin
                rw [henclosing] at habsent
                exact nearest?_cons_eq_none.mpr ⟨hnone, hbase.nearest?_eq_none habsent⟩
            | @inherited outer rest source _ hnext hsource hfrom =>
                rw [henclosing] at hnext
                refine .inherited hnext ?_ (horigin ▸ hfrom)
                exact (grows_define hnew origin).meaning? hsource
          · exact hold hmeaning

/-! ## Following an entry outwards -/

/-- The entry of a name in a scope leads to what the layers around the scope say of the name. -/
inductive Leads (tree : ScopeTree) (name : String) : List Layer → ScopeId → NameId → Prop where
  /-- The innermost layer declares the name by a value. -/
  | value {layer : Layer} {layers : List Layer} {scope : ScopeId} {id : NameId} {node : NodeId}
      {kinds : Kinds} (hsaid : layer.says? name = some (.value node))
      (hmeaning : tree.meaning? scope name = some (some id))
      (horigin : (tree.name id).origin = .bound node kinds) :
      Leads tree name (layer :: layers) scope id
  /-- The innermost layer declares the name as what it replaces. -/
  | replaced {layer : Layer} {layers : List Layer} {scope : ScopeId} {id : NameId} {kinds : Kinds}
      (hsaid : layer.says? name = some .replaced)
      (hmeaning : tree.meaning? scope name = some (some id))
      (horigin : (tree.name id).origin = .replaced kinds) :
      Leads tree name (layer :: layers) scope id
  /-- No layer says anything about the name. -/
  | free {layers : List Layer} {scope : ScopeId} {id : NameId} {kinds : Kinds}
      (habsent : Layer.nearest? layers name = none)
      (hmeaning : tree.meaning? scope name = some (some id))
      (horigin : (tree.name id).origin = .free kinds) : Leads tree name layers scope id
  /-- The innermost layer says nothing, and the entry is a copy of the entry of the scope directly
  outside: a delegated one if the scope delegates, and a masked one otherwise. -/
  | copy {layer : Layer} {layers : List Layer} {scope outer : ScopeId} {rest : List ScopeId}
      {id source : NameId} (hsaid : layer.says? name = none)
      (hmeaning : tree.meaning? scope name = some (some id))
      (hdelegates : (tree.scope scope).delegates = layer.delegates)
      (horigin : ((tree.scope scope).delegates = true ∧
          (tree.name id).origin = .delegated source) ∨
        ((tree.scope scope).delegates = false ∧ ∃ mask, (tree.name id).origin = .masked source mask))
      (henclosing : (tree.scope scope).enclosing = outer :: rest)
      (hsource : Leads tree name layers outer source) : Leads tree name (layer :: layers) scope id

/-- How a copy refers to its source is up to the scope that it belongs to. -/
theorem Formed.copy (h : tree.Formed) {scope : ScopeId} {id source : NameId}
    (hhome : (tree.name id).scope? = some scope)
    (hsource : (tree.name id).origin.source? = some source) :
    ((tree.scope scope).delegates = true ∧ (tree.name id).origin = .delegated source) ∨
      ((tree.scope scope).delegates = false ∧
        ∃ mask, (tree.name id).origin = .masked source mask) := by
  cases horigin : (tree.name id).origin with
  | delegated other =>
      rw [horigin] at hsource
      cases hsource
      exact .inl ⟨h.delegated id _ scope horigin hhome, rfl⟩
  | masked other mask =>
      rw [horigin] at hsource
      cases hsource
      exact .inr ⟨h.masked id _ mask scope horigin hhome, mask, rfl⟩
  | _ =>
      rw [horigin] at hsource
      cases hsource

/-- Whatever has been added since the walk, an entry leads to what the layers say. -/
theorem leads_of_extends (hbase : base.Formed) (h : base.Extends tree) (hformed : tree.Formed)
    {layers : List Layer} {scope : ScopeId} (hstands : base.Stands layers scope) {name : String}
    {id : NameId} (hmeaning : tree.meaning? scope name = some (some id)) :
    tree.Leads name layers scope id := by
  have hgrows := h.grows
  -- an entry that is added where nothing is said
  have hfree : ∀ {layers : List Layer} {scope : ScopeId}, base.Stands layers scope →
      base.nearest? (base.chain scope) name = none → ∀ {id : NameId} {kinds : Kinds},
        tree.meaning? scope name = some (some id) → (tree.name id).origin = .free kinds →
          tree.Leads name layers scope id :=
    fun hstands habsent _ _ hmeaning horigin =>
      .free ((hstands.nearest? hbase name).1.mp habsent) hmeaning horigin
  induction layers generalizing scope id with
  | nil =>
      have hfree := @hfree [] scope hstands
      obtain ⟨hlt, henclosing, hnothing⟩ := hstands
      rcases h.entry hlt hmeaning with hbefore | ⟨-, hadded⟩
      · cases (hnothing name).symm.trans hbefore
      · cases hadded with
        | free habsent horigin => exact hfree habsent hmeaning horigin
        | inherited hnext => cases henclosing.symm.trans hnext
  | cons layer layers ih =>
      have hlt := hstands.lt_size
      have hfree := @hfree (layer :: layers) scope hstands
      obtain ⟨hrepeats, hdelegates, outer, rest, henclosing, houter⟩ := hstands
      have hscope := hgrows.scope scope hlt
      have hrepeats := hrepeats name
      -- what the layer declares stays what the name means
      have hdeclared : ∀ {other : NameId}, base.meaning? scope name = some (some other) →
          id = other ∧ (base.name other).origin.Narrows (tree.name other).origin := by
        intro other hother
        have hlive := (hbase.entry scope name other hother).1
        have hsame := hmeaning.symm.trans (hgrows.meaning? hother)
        exact ⟨Option.some.inj (Option.some.inj hsame),
          (hgrows.name other (lt_size_of_not_junk hlive)).origin⟩
      cases hsaid : layer.says? name with
      | some saying =>
          rw [hsaid] at hrepeats
          cases saying with
          | hidden => cases hmeaning.symm.trans (hgrows.meaning? hrepeats)
          | value node =>
              obtain ⟨other, kinds, hother, horigin⟩ := hrepeats
              obtain ⟨rfl, hnarrows⟩ := hdeclared hother
              obtain ⟨kinds', hafter⟩ := hnarrows.exists_bound_iff.mpr ⟨kinds, horigin⟩
              exact .value hsaid hmeaning hafter
          | replaced =>
              obtain ⟨other, kinds, hother, horigin⟩ := hrepeats
              obtain ⟨rfl, hnarrows⟩ := hdeclared hother
              obtain ⟨kinds', hafter⟩ := hnarrows.exists_replaced_iff.mpr ⟨kinds, horigin⟩
              exact .replaced hsaid hmeaning hafter
      | none =>
          rw [hsaid] at hrepeats
          rcases h.entry hlt hmeaning with hbefore | ⟨-, hadded⟩
          · cases (show base.meaning? scope name = none from hrepeats).symm.trans hbefore
          · cases hadded with
            | free habsent horigin => exact hfree habsent hmeaning horigin
            | inherited hnext hsource horigin =>
                obtain ⟨rfl, rfl⟩ := List.cons.inj (henclosing.symm.trans hnext)
                have hhome := (hformed.entry scope name id hmeaning).2.1
                exact .copy hsaid hmeaning (hscope.delegates.trans hdelegates)
                  (hformed.copy hhome horigin) (hscope.enclosing.trans henclosing)
                  (ih houter hsource)

end ScopeTree

/-! ## What is reported -/

namespace Finding

theorem emptyLookup_injective : Function.Injective emptyLookup :=
  fun _ _ heq => congrArg Finding.span heq

/-- The complaint about a hidden name tells the region and the name. -/
theorem forbiddenName_injective :
    Function.Injective fun place : Span × String => forbiddenName place.1 place.2 := by
  rintro ⟨span, name⟩ ⟨span', name'⟩ heq
  have hspan : span = span' := congrArg Finding.span heq
  have hmessage : "Lookup for “" ++ name ++ "” is forbidden." =
      "Lookup for “" ++ name' ++ "” is forbidden." := congrArg Finding.message heq
  have hname : name = name' := by
    apply String.toList_injective
    have hchars := congrArg String.toList hmessage
    simpa only [String.toList_append, List.append_cancel_right_eq, List.append_cancel_left_eq]
      using hchars
  rw [hspan, hname]

end Finding

/-- A list without repetitions whose members are images is the list of the images of different
items. -/
theorem exists_items_of_nodup {α β : Type} {image : α → β} (himage : Function.Injective image)
    {P : α → Prop} {found : List β} (hnodup : found.Nodup)
    (hfound : ∀ result, result ∈ found ↔ ∃ item, P item ∧ image item = result) :
    ∃ items : List α, found = items.map image ∧ items.Nodup ∧ ∀ item, item ∈ items ↔ P item := by
  have hrange : found ∈ Set.range (List.map image) := by
    rw [Set.range_list_map]
    intro result hresult
    obtain ⟨item, -, hitem⟩ := (hfound result).mp hresult
    exact ⟨item, hitem⟩
  obtain ⟨items, rfl⟩ := hrange
  refine ⟨items, rfl, hnodup.of_map, fun item => ?_⟩
  rw [← List.mem_map_of_injective himage, hfound]
  constructor
  · rintro ⟨other, hother, heq⟩
    exact himage heq ▸ hother
  · exact fun hitem => ⟨item, hitem, rfl⟩

namespace Evaluation

section Units

variable {unit : Expr} {file : String} {topLevel : Bool}

/-- A lookup and what stands around it, with what is wrong with the lookup. -/
def Faulty (unit : Expr) (finding : Finding) : Prop :=
  ∃ mark path layers, (.lookup mark path, layers) ∈ unit.surrounded [] ∧
    Layer.fault? layers path mark.span = some finding

/-- Where a lookup is evaluated, and what stands around it, wherever it is in the layout. -/
theorem surrounded_of_way (hdistinct : unit.Distinct) {id : NodeId} {placement : Placement}
    {path : List String}
    (hplaced : (Survey.ofUnit unit file topLevel).defs.nodes.find? id = some placement)
    (hway : placement.expr.way = .lookup path) :
    ∃ mark layers, placement.expr = .lookup mark path ∧
      (.lookup mark path, layers) ∈ unit.surrounded [] ∧
        (Survey.ofUnit unit file topLevel).tree.Stands layers placement.scope := by
  obtain ⟨hmem, hid, -⟩ := Survey.found_ofUnit hplaced
  rw [← Expr.map_fst_surrounded [] unit] at hmem
  obtain ⟨⟨expr, layers⟩, hpair, rfl⟩ := List.mem_map.mp hmem
  obtain ⟨scope, hfound, hstands⟩ := Survey.surrounded_ofUnit hdistinct hpair
  rw [hid, hplaced] at hfound
  cases hexpr : placement.expr with
  | lookup mark other =>
      rw [hexpr] at hway hpair
      cases hway
      have hscope : placement.scope = scope := congrArg Placement.scope (Option.some.inj hfound)
      exact ⟨mark, layers, rfl, hpair, hscope ▸ hstands⟩
  | _ =>
      rw [hexpr] at hway
      cases hway

variable (hdistinct : unit.Distinct) {order : List NodeId}
  (horder : order.Perm (Survey.ofUnit unit file topLevel).defs.lookups)
include hdistinct horder

/-- What a lookup means in the end, and what is wrong with it. -/
theorem told_finishedIn {mark : Mark} {path : List String} {layers : List Layer}
    (hlookup : (.lookup mark path, layers) ∈ unit.surrounded []) :
    ∃ scope name,
      (Survey.ofUnit unit file topLevel).defs.nodes.find? mark.id =
        some ⟨.lookup mark path, scope⟩ ∧
      (Survey.ofUnit unit file topLevel).tree.Stands layers scope ∧
      (finishedIn (Survey.ofUnit unit file topLevel) order).defs.resolved.find? mark.id =
        some name ∧
      Told (finishedIn (Survey.ofUnit unit file topLevel) order) scope path mark.span name ∧
      (finishedIn (Survey.ofUnit unit file topLevel) order).tree.fault?
        ((finishedIn (Survey.ofUnit unit file topLevel) order).tree.chain scope) path mark.span =
          Layer.fault? layers path mark.span := by
  obtain ⟨hexplored, hadvances⟩ := finishedIn_explored unit file topLevel order
  obtain ⟨scope, hplaced, hstands⟩ := Survey.surrounded_ofUnit hdistinct hlookup
  obtain ⟨-, -, hscope, hmem⟩ := Survey.found_ofUnit hplaced
  obtain ⟨name, hname⟩ := finishedIn_resolves hplaced (horder.mem_iff.mpr (hmem trivial))
  refine ⟨scope, name, hplaced, hstands, hname,
    hexplored.told mark.id name _ path hname hplaced rfl, ?_⟩
  rw [hadvances.extended.fault? hscope]
  exact hstands.fault? (Survey.kept_ofUnit unit file topLevel).formed path mark.span

/-- What is reported of lookups is what is wrong with some of them. -/
theorem mem_seen_finishedIn {finding : Finding} (hscopal : finding.Scopal) :
    finding ∈ (finishedIn (Survey.ofUnit unit file topLevel) order).reporter.seen ↔
      Faulty unit finding := by
  obtain ⟨hexplored, hadvances⟩ := finishedIn_explored unit file topLevel order
  constructor
  · intro hseen
    obtain ⟨id, placement, path, hplaced, hway, hfault⟩ :=
      hexplored.complaints finding hseen hscopal
    obtain ⟨mark, layers, hexpr, hlookup, hstands⟩ := surrounded_of_way hdistinct hplaced hway
    refine ⟨mark, path, layers, hlookup, ?_⟩
    have hscope := (Survey.found_ofUnit hplaced).2.2.1
    rw [hadvances.extended.fault? hscope, hexpr] at hfault
    rw [← hstands.fault? (Survey.kept_ofUnit unit file topLevel).formed]
    exact hfault
  · rintro ⟨mark, path, layers, hlookup, hfault⟩
    obtain ⟨scope, name, -, -, -, htold, hsame⟩ := told_finishedIn hdistinct horder hlookup
    exact (htold.faulty finding (hsame.trans hfault)).2

end Units

end Evaluation

/-! ## Whole units -/

/-- Analyse a unit, but classify its lookups in a given order. -/
def analyseIn (unit : Expr) (file : String) (options : Options) (order : List NodeId) : Analysis :=
  let surveyed := Survey.ofUnit unit file options.topLevel
  let session := Evaluation.finishedIn surveyed order
  { file := file
    options := options
    root := Survey.root
    tree := session.tree
    layout := surveyed.defs
    progress := session.defs
    report := session.reporter.report
    trace := session.trace }

/-- The lookups of a unit are classified in the order of the walk. -/
theorem analyse_eq_analyseIn (unit : Expr) (file : String) (options : Options) :
    analyse unit file options =
      analyseIn unit file options (analyse unit file options).layout.lookups := by
  rw [Analysis.layout_analyse]
  unfold analyse analyseIn
  dsimp only
  rw [Evaluation.finished_eq]

namespace Analysis

section Order

variable (unit : Expr) (file : String) (options : Options) (order : List NodeId)

theorem tree_analyseIn : (analyseIn unit file options order).tree =
    (Evaluation.finishedIn (Survey.ofUnit unit file options.topLevel) order).tree := by
  unfold analyseIn
  dsimp only

theorem report_analyseIn : (analyseIn unit file options order).report =
    (Evaluation.finishedIn (Survey.ofUnit unit file options.topLevel) order).reporter.report := by
  unfold analyseIn
  dsimp only

theorem nameOf?_analyseIn (node : NodeId) : (analyseIn unit file options order).nameOf? node =
    (Evaluation.finishedIn (Survey.ofUnit unit file options.topLevel)
      order).defs.resolved.find? node := by
  unfold Analysis.nameOf? analyseIn
  dsimp only

theorem scopeOf?_analyseIn (node : NodeId) : (analyseIn unit file options order).scopeOf? node =
    ((Survey.ofUnit unit file options.topLevel).defs.nodes.find? node).map Placement.scope := by
  unfold Analysis.scopeOf? analyseIn
  dsimp only

end Order

/-- A lookup means what the layers around it decide. -/
structure Means (analysis : Analysis) (layers : List Layer) (mark : Mark) (path : List String)
    (scope : ScopeId) (name : NameId) : Prop where
  evaluated : analysis.scopeOf? mark.id = some scope
  meant : analysis.nameOf? mark.id = some name
  /-- It goes wrong if it names nothing, or if the innermost layer that says anything about the
  first component hides it, and in no other case. -/
  wrong : analysis.tree.isJunk name = true ↔
    path = [] ∨ ∃ first rest, path = first :: rest ∧ Layer.nearest? layers first = some .hidden
  home : analysis.tree.isJunk name = false → (analysis.tree.name name).scope? = some scope
  leads : analysis.tree.isJunk name = false → ∃ first rest entry, path = first :: rest ∧
    analysis.tree.meaning? scope first = some (some entry) ∧
      analysis.tree.Leads first layers scope entry

theorem fault?_eq_none_iff {layers : List Layer} {path : List String} {span : Span} :
    Layer.fault? layers path span = none ↔
      ¬ (path = [] ∨ ∃ first rest, path = first :: rest ∧
        Layer.nearest? layers first = some .hidden) := by
  cases path with
  | nil => simp [Layer.fault?]
  | cons first rest => simp [Layer.fault?]

section Lookups

variable {unit : Expr} (hdistinct : unit.Distinct) {file : String} {options : Options}
  {order : List NodeId}
  (horder : order.Perm (Survey.ofUnit unit file options.topLevel).defs.lookups)
include hdistinct horder

theorem means_analyseIn {mark : Mark} {path : List String} {layers : List Layer}
    (hlookup : (.lookup mark path, layers) ∈ unit.surrounded []) :
    ∃ scope name, (analyseIn unit file options order).Means layers mark path scope name := by
  obtain ⟨hexplored, hadvances⟩ := Evaluation.finishedIn_explored unit file options.topLevel order
  obtain ⟨scope, name, hplaced, hstands, hname, htold, hfault⟩ :=
    Evaluation.told_finishedIn hdistinct horder hlookup
  have hbase := (Survey.kept_ofUnit unit file options.topLevel).formed
  have hextended : (Survey.ofUnit unit file options.topLevel).tree.Extends
      (analyseIn unit file options order).tree := by
    rw [tree_analyseIn]
    exact hadvances.extended
  have hformed := hexplored.formed
  have howned := hexplored.owned mark.id name _ hname hplaced
  have hfaulty := htold.faulty
  have hfaultless := htold.faultless
  rw [hfault] at hfaulty hfaultless
  rw [← tree_analyseIn] at hformed howned hfaulty hfaultless
  have hwrong : (analyseIn unit file options order).tree.isJunk name = true ↔
      path = [] ∨ ∃ first rest, path = first :: rest ∧
        Layer.nearest? layers first = some .hidden := by
    constructor
    · intro hjunk
      by_contra hright
      obtain ⟨hlive, -⟩ := hfaultless (fault?_eq_none_iff.mpr hright)
      cases hjunk.symm.trans hlive
    · intro hwrong
      cases hsome : Layer.fault? layers path mark.span with
      | none => exact absurd hwrong (fault?_eq_none_iff.mp hsome)
      | some finding => exact (hfaulty finding hsome).1
  refine ⟨scope, name, ?_, (nameOf?_analyseIn ..).trans hname, hwrong, fun hlive => ?_,
    fun hlive => ?_⟩
  · rw [scopeOf?_analyseIn, hplaced]
    rfl
  · rcases howned with ⟨hjunk, -⟩ | howned
    · cases hjunk.symm.trans hlive
    · exact (howned.home hformed).2
  · have hright := fun h => Bool.eq_false_iff.mp hlive (hwrong.mpr h)
    obtain ⟨-, first, rest, entry, hpath, hentry⟩ := hfaultless (fault?_eq_none_iff.mpr hright)
    exact ⟨first, rest, entry, hpath, hentry,
      ScopeTree.leads_of_extends hbase hextended hformed hstands hentry⟩

/-- The complaints about lookups, each listed once. -/
theorem exists_complaints :
    ∃ findings : List Finding, findings.Nodup ∧
      (analyseIn unit file options order).report.totalErrors = findings.length ∧
      (analyseIn unit file options order).report.errors.map Diagnostic.finding =
        findings.take Report.capacity ∧
      ∀ finding : Finding, finding.Scopal →
        (finding ∈ findings ↔ Evaluation.Faulty unit finding) := by
  obtain ⟨hexplored, -⟩ := Evaluation.finishedIn_explored unit file options.topLevel order
  have hcounts := hexplored.counts
  rw [report_analyseIn]
  refine ⟨_, List.nodup_reverse.mpr hcounts.nodup, ?_, hcounts.kept, fun finding hscopal => ?_⟩
  · rw [List.length_reverse]
    exact hcounts.total
  · rw [List.mem_reverse]
    exact Evaluation.mem_seen_finishedIn hdistinct horder hscopal

end Lookups

/-- A lookup is faulty in the way that its code says. -/
theorem faulty_iff_of_emptyLookup {unit : Expr} {finding : Finding}
    (hcode : finding.code = .emptyLookup) :
    Evaluation.Faulty unit finding ↔ ∃ span,
      (∃ mark layers, (Expr.lookup mark [], layers) ∈ unit.surrounded [] ∧ mark.span = span) ∧
        Finding.emptyLookup span = finding := by
  constructor
  · rintro ⟨mark, path, layers, hlookup, hfault⟩
    cases path with
    | nil => exact ⟨mark.span, ⟨mark, layers, hlookup, rfl⟩, Option.some.inj hfault⟩
    | cons first rest =>
        rw [Layer.fault?] at hfault
        split at hfault
        · rw [← Option.some.inj hfault] at hcode
          cases hcode
        · cases hfault
  · rintro ⟨span, ⟨mark, layers, hlookup, rfl⟩, rfl⟩
    exact ⟨mark, [], layers, hlookup, rfl⟩

theorem faulty_iff_of_forbiddenName {unit : Expr} {finding : Finding}
    (hcode : finding.code = .forbiddenName) :
    Evaluation.Faulty unit finding ↔ ∃ place : Span × String,
      (∃ mark rest layers, (Expr.lookup mark (place.2 :: rest), layers) ∈ unit.surrounded [] ∧
        mark.span = place.1 ∧ Layer.nearest? layers place.2 = some .hidden) ∧
        Finding.forbiddenName place.1 place.2 = finding := by
  constructor
  · rintro ⟨mark, path, layers, hlookup, hfault⟩
    cases path with
    | nil =>
        rw [← Option.some.inj hfault] at hcode
        cases hcode
    | cons first rest =>
        rw [Layer.fault?] at hfault
        split at hfault
        · next hhidden =>
          exact ⟨(mark.span, first), ⟨mark, rest, layers, hlookup, rfl, hhidden⟩,
            Option.some.inj hfault⟩
        · cases hfault
  · rintro ⟨⟨span, first⟩, ⟨mark, rest, layers, hlookup, rfl, hhidden⟩, rfl⟩
    exact ⟨mark, first :: rest, layers, hlookup, if_pos hhidden⟩

/-- Lookups resolve lexically, in whatever order they are classified.

Every lookup means a name, which belongs to the scope that the lookup is evaluated in unless
the lookup goes wrong; whether it goes wrong, and where the entry of its first component leads,
is decided by the layers around the lookup.  Of all that is reported, each finding once, the
complaints about lookups that name nothing are one for every region of such a lookup, and the
complaints about hidden names are one for every region and hidden name. -/
theorem lookups_resolve_lexically (unit : Expr) (hdistinct : unit.Distinct) (file : String)
    (options : Options) (order : List NodeId)
    (horder : order.Perm (analyse unit file options).layout.lookups) :
    analyseIn unit file options (analyse unit file options).layout.lookups =
      analyse unit file options ∧
    (∀ mark path layers, (Expr.lookup mark path, layers) ∈ unit.surrounded [] →
      ∃ scope name, (analyseIn unit file options order).Means layers mark path scope name) ∧
    ∃ findings : List Finding, findings.Nodup ∧
      (analyseIn unit file options order).report.totalErrors = findings.length ∧
      (analyseIn unit file options order).report.errors.map Diagnostic.finding =
        findings.take Report.capacity ∧
      (∃ spans : List Span,
        findings.filter (fun finding => finding.code = .emptyLookup) =
          spans.map Finding.emptyLookup ∧
        spans.Nodup ∧ ∀ span, span ∈ spans ↔
          ∃ mark layers, (Expr.lookup mark [], layers) ∈ unit.surrounded [] ∧ mark.span = span) ∧
      ∃ places : List (Span × String),
        findings.filter (fun finding => finding.code = .forbiddenName) =
          places.map (fun place => Finding.forbiddenName place.1 place.2) ∧
        places.Nodup ∧ ∀ place, place ∈ places ↔
          ∃ mark rest layers, (Expr.lookup mark (place.2 :: rest), layers) ∈ unit.surrounded [] ∧
            mark.span = place.1 ∧ Layer.nearest? layers place.2 = some .hidden := by
  rw [layout_analyse] at horder
  refine ⟨(analyse_eq_analyseIn unit file options).symm,
    fun mark path layers hlookup => means_analyseIn hdistinct horder hlookup, ?_⟩
  obtain ⟨findings, hnodup, htotal, herrors, hfindings⟩ := exists_complaints hdistinct horder
  refine ⟨findings, hnodup, htotal, herrors, ?_, ?_⟩
  · refine exists_items_of_nodup Finding.emptyLookup_injective (hnodup.filter _) fun finding => ?_
    rw [List.mem_filter, decide_eq_true_eq]
    constructor
    · rintro ⟨hmem, hcode⟩
      exact (faulty_iff_of_emptyLookup hcode).mp ((hfindings finding (.inr hcode)).mp hmem)
    · rintro ⟨span, hspan, rfl⟩
      exact ⟨(hfindings _ (.inr rfl)).mpr
        ((faulty_iff_of_emptyLookup rfl).mpr ⟨span, hspan, rfl⟩), rfl⟩
  · refine exists_items_of_nodup Finding.forbiddenName_injective (hnodup.filter _)
      fun finding => ?_
    rw [List.mem_filter, decide_eq_true_eq]
    constructor
    · rintro ⟨hmem, hcode⟩
      exact (faulty_iff_of_forbiddenName hcode).mp ((hfindings finding (.inl hcode)).mp hmem)
    · rintro ⟨place, hplace, rfl⟩
      exact ⟨(hfindings _ (.inl rfl)).mpr
        ((faulty_iff_of_forbiddenName rfl).mpr ⟨place, hplace, rfl⟩), rfl⟩

/-- A frame in which a declared name is looked up, hidden and looked up again, beside a lookup that
names nothing. -/
def hiddenName : Expr :=
  let mark (id : Nat) : Mark := ⟨⟨id⟩, .point 1 (UInt32.ofNat id)⟩
  .frame (mark 0) [.of "x" (.literal (mark 1) .null), .of "a" (.lookup (mark 2) ["x"]),
    .of "b" (.hide (mark 3) ["x"] (.lookup (mark 4) ["x"])), .of "c" (.lookup (mark 5) [])]

/-- Classified from back to front, the lookup inside goes wrong and the lookup outside leads to the
attribute. -/
theorem lookups_resolve_lexically_hiddenName :
    hiddenName.Distinct ∧
    ∃ order : List NodeId, order = [⟨5⟩, ⟨4⟩, ⟨2⟩] ∧
      order.Perm (analyse hiddenName "hidden" .default).layout.lookups ∧
      (∃ layers scope name, (analyseIn hiddenName "hidden" .default order).Means layers
        ⟨⟨4⟩, .point 1 4⟩ ["x"] scope name ∧
          (analyseIn hiddenName "hidden" .default order).tree.isJunk name = true) ∧
      ∃ layers scope name, (analyseIn hiddenName "hidden" .default order).Means layers
        ⟨⟨2⟩, .point 1 2⟩ ["x"] scope name ∧
          (analyseIn hiddenName "hidden" .default order).tree.isJunk name = false := by
  have hdistinct : hiddenName.Distinct := by decide
  have hlookups : (analyse hiddenName "hidden" .default).layout.lookups = [⟨2⟩, ⟨4⟩, ⟨5⟩] := by
    decide +kernel
  have horder : [⟨5⟩, ⟨4⟩, ⟨2⟩].Perm (analyse hiddenName "hidden" .default).layout.lookups := by
    rw [hlookups]
    decide
  let frame : Layer := ⟨[("x", .value ⟨1⟩), ("a", .value ⟨2⟩), ("b", .value ⟨3⟩),
    ("c", .value ⟨5⟩)], false⟩
  have houter : (.lookup ⟨⟨2⟩, .point 1 2⟩ ["x"], [frame]) ∈ hiddenName.surrounded [] :=
    .tail _ (.tail _ (.head _))
  have hinner : (.lookup ⟨⟨4⟩, .point 1 4⟩ ["x"], [.ofHidden ["x"], frame]) ∈
      hiddenName.surrounded [] :=
    .tail _ (.tail _ (.tail _ (.tail _ (.head _))))
  obtain ⟨-, hmeans, -⟩ :=
    lookups_resolve_lexically hiddenName hdistinct "hidden" .default _ horder
  refine ⟨hdistinct, _, rfl, horder, ?_, ?_⟩
  · obtain ⟨scope, name, h⟩ := hmeans _ _ _ hinner
    exact ⟨_, scope, name, h, h.wrong.mpr (.inr ⟨"x", [], rfl, rfl⟩)⟩
  · obtain ⟨scope, name, h⟩ := hmeans _ _ _ houter
    refine ⟨_, scope, name, h, Bool.eq_false_iff.mpr fun hjunk => ?_⟩
    rcases h.wrong.mp hjunk with hnil | ⟨first, rest, hpath, hhidden⟩
    · cases hnil
    · cases hpath
      exact absurd hhidden (by decide)

end Analysis

end FrameLang
