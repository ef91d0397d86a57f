import FrameLang.Proofs.Scope.Extension

/-!
# Inside and outside of a scope tree

An `Interior` is a part of the scopes of a tree, together with the nodes that are
evaluated there.  It is sealed when no demand on a name inside is handed on to the
outside, and no name outside is inherited from the inside (`Interior.Sealed`): a scope
around which everything is inside is inside itself, and a scope that delegates has the
scope around it on its own side.

Two trees are alike from outside when they differ in nothing but what is known of names
inside, and of arithmetic operations there (`ScopeTree.Alike`).  The operations of a
tree keep trees alike.
-/

namespace FrameLang

/-! ## Definitions -/

/-- Origins that differ in nothing but what is known. -/
inductive Origin.Alike : Origin → Origin → Prop where
  | free (kinds kinds' : Kinds) : Alike (free kinds) (free kinds')
  | replaced (kinds kinds' : Kinds) : Alike (replaced kinds) (replaced kinds')
  | bound (node : NodeId) (kinds kinds' : Kinds) : Alike (bound node kinds) (bound node kinds')
  | masked (source : NameId) (mask mask' : Kinds) : Alike (masked source mask) (masked source mask')
  | delegated (source : NameId) : Alike (delegated source) (delegated source)
  | junk : Alike junk junk

/-- Records that differ in nothing but what is known of the kinds of the name. -/
structure NameRecord.Alike (first second : NameRecord) : Prop where
  path : second.path = first.path
  scope? : second.scope? = first.scope?
  origin : first.origin.Alike second.origin
  mustUnbox : second.mustUnbox = first.mustUnbox
  children : second.children = first.children

/-- Scopes that differ in nothing but what is known of arithmetic operations. -/
structure Scope.Alike (first second : Scope) : Prop where
  enclosing : second.enclosing = first.enclosing
  children : second.children = first.children
  priority : second.priority = first.priority
  delegates : second.delegates = first.delegates
  topLevel : second.topLevel = first.topLevel
  span : second.span = first.span
  entries : second.entries = first.entries

/-- Records that are at the same place and lead to the same names. -/
structure NameRecord.Parallel (first second : NameRecord) : Prop where
  path : second.path = first.path
  scope? : second.scope? = first.scope?
  origin : first.origin.Alike second.origin
  children : second.children = first.children

/-- Trees that are laid out alike. -/
structure ScopeTree.Parallel (first second : ScopeTree) : Prop where
  size_names : second.names.size = first.names.size
  name : ∀ id, (first.name id).Parallel (second.name id)
  scope : ∀ id, (first.scope id).Alike (second.scope id)

/-- Some of the scopes, with the nodes that are evaluated in them. -/
structure Interior where
  scopes : ScopeId → Prop
  nodes : NodeId → Prop

namespace Interior

variable (interior : Interior)

/-- A name belongs to a scope inside. -/
def Owns (tree : ScopeTree) (id : NameId) : Prop :=
  tree.isJunk id = false ∧ ∃ scope, (tree.name id).scope? = some scope ∧ interior.scopes scope

/-- Nothing leads from the inside to the outside, except that names inside may be inherited with
demands kept in a mask. -/
structure Sealed (tree : ScopeTree) : Prop where
  scopes : ∀ here outer rest, (tree.scope here).enclosing = outer :: rest →
    interior.scopes outer → interior.scopes here
  delegates : ∀ here outer rest, (tree.scope here).enclosing = outer :: rest →
    (tree.scope here).delegates = true → interior.scopes here → interior.scopes outer
  bound : ∀ id node kinds, (tree.name id).origin = .bound node kinds →
    (interior.Owns tree id ↔ interior.nodes node)

end Interior

/-- Trees that are the same from outside. -/
structure ScopeTree.Alike (interior : Interior) (first second : ScopeTree) : Prop where
  size_names : second.names.size = first.names.size
  size_scopes : second.scopes.size = first.scopes.size
  name : ∀ id, (first.name id).Alike (second.name id)
  scope : ∀ id, (first.scope id).Alike (second.scope id)
  origin : ∀ id, ¬ interior.Owns first id → (second.name id).origin = (first.name id).origin
  intrinsics : ∀ id, ¬ interior.scopes id →
    (second.scope id).intrinsics = (first.scope id).intrinsics

/-! ## Records -/

namespace Origin

theorem Alike.refl (origin : Origin) : origin.Alike origin := by
  cases origin <;> constructor

variable {first second : Origin}

theorem Alike.narrow (h : first.Alike second) (demanded demanded' : Kinds) :
    (first.narrow demanded).Alike (second.narrow demanded') := by
  cases h <;> constructor

theorem Alike.settle (h : first.Alike second) (proven proven' : Kinds) :
    (first.settle proven).Alike (second.settle proven') := by
  cases h <;> constructor

theorem Alike.junk_iff (h : first.Alike second) : second = .junk ↔ first = .junk := by
  cases h <;> simp

theorem Alike.source? (h : first.Alike second) : second.source? = first.source? := by
  cases h <;> rfl

end Origin

namespace NameRecord

theorem Alike.refl (record : NameRecord) : record.Alike record :=
  ⟨rfl, rfl, .refl _, rfl, rfl⟩

variable {first second : NameRecord}

theorem Alike.isJunk (h : first.Alike second) : second.isJunk = first.isJunk :=
  decide_eq_decide.mpr h.origin.junk_iff

theorem Alike.afterDemand (h : first.Alike second) (demanded demanded' : Kinds) (unbox : Bool) :
    (first.afterDemand demanded unbox).Alike (second.afterDemand demanded' unbox) := by
  unfold NameRecord.afterDemand
  rw [h.isJunk]
  split
  · exact h
  · exact ⟨h.path, h.scope?, h.origin.narrow _ _, by rw [h.mustUnbox], h.children⟩

theorem Alike.afterProof (h : first.Alike second) (proven proven' : Kinds) :
    (first.afterProof proven).Alike (second.afterProof proven') :=
  ⟨h.path, h.scope?, h.origin.settle _ _, h.mustUnbox, h.children⟩

end NameRecord

theorem Scope.Alike.refl (scope : Scope) : scope.Alike scope :=
  ⟨rfl, rfl, rfl, rfl, rfl, rfl, rfl⟩

/-! ## Trees that are laid out alike -/

namespace ScopeTree.Parallel

variable {first second : ScopeTree} (h : first.Parallel second)
include h

theorem isJunk (id : NameId) : second.isJunk id = first.isJunk id :=
  decide_eq_decide.mpr (h.name id).origin.junk_iff

theorem meaning? (scope : ScopeId) (name : String) :
    second.meaning? scope name = first.meaning? scope name := by
  rw [ScopeTree.meaning?, (h.scope scope).entries, ScopeTree.meaning?]

theorem chain (scope : ScopeId) : second.chain scope = first.chain scope := by
  rw [ScopeTree.chain, (h.scope scope).enclosing, ScopeTree.chain]

theorem child? (id : NameId) (component : String) :
    second.child? id component = first.child? id component := by
  rw [ScopeTree.child?, (h.name id).children, ScopeTree.child?]

theorem nextName : second.nextName = first.nextName := congrArg NameId.mk h.size_names

theorem hasChild (id : NameId) (component : String) :
    second.hasChild id component = first.hasChild id component := by
  induction id using NameId.strongInduction with
  | step id ih =>
      rw [ScopeTree.hasChild, ScopeTree.hasChild, h.child?, (h.name id).origin.source?]
      cases (first.name id).origin.source? with
      | none => rfl
      | some source =>
          dsimp only
          split
          · next hlt => rw [ih source hlt]
          · rfl

end ScopeTree.Parallel

/-! ## Who owns a name -/

namespace Interior

variable {interior : Interior} {tree before after : ScopeTree}

/-- A name that is there stays on its side. -/
theorem owns_iff_of_grows (h : before.Grows after) {id : NameId}
    (hid : id.index < before.names.size) : interior.Owns after id ↔ interior.Owns before id := by
  rw [Owns, Owns, h.isJunk hid, (h.name id hid).scope?]

theorem Owns.lt_size {id : NameId} (h : interior.Owns tree id) : id.index < tree.names.size :=
  ScopeTree.lt_size_of_not_junk h.1

/-- A name that is inherited from the inside is inside. -/
theorem Sealed.owns_of_source (h : interior.Sealed tree) (hformed : tree.Formed)
    {id source : NameId} (hsource : (tree.name id).origin.source? = some source)
    (howns : interior.Owns tree source) :
    interior.Owns tree id := by
  obtain ⟨-, -, -, here, outer, rest, hhere, henclosing, houter⟩ :=
    hformed.source id source hsource
  obtain ⟨-, scope, hscope, hinside⟩ := howns
  obtain rfl := Option.some.inj (houter.symm.trans hscope)
  refine ⟨?_, here, hhere, h.scopes here outer rest henclosing hinside⟩
  rw [ScopeTree.isJunk, NameRecord.isJunk_eq_false]
  intro hjunk
  rw [hjunk] at hsource
  cases hsource

/-- What a name inside delegates to is inside. -/
theorem Sealed.owns_source (h : interior.Sealed tree) (hformed : tree.Formed) {id source : NameId}
    (horigin : (tree.name id).origin = .delegated source) (howns : interior.Owns tree id) :
    interior.Owns tree source := by
  obtain ⟨-, hlive, -, here, outer, rest, hhere, henclosing, houter⟩ :=
    hformed.source id source (by rw [horigin]; rfl)
  obtain ⟨-, scope, hscope, hinside⟩ := howns
  obtain rfl := Option.some.inj (hhere.symm.trans hscope)
  have hdelegates := hformed.delegated id source here horigin hhere
  exact ⟨hlive, outer, houter, h.delegates here outer rest henclosing hdelegates hinside⟩

/-- Names that are not bound may be added. -/
theorem Sealed.grows (h : interior.Sealed before) (hgrows : before.Grows after)
    (hsize : after.scopes.size = before.scopes.size)
    (hnew : ∀ id, before.names.size ≤ id.index → ∀ node kinds,
      (after.name id).origin ≠ .bound node kinds) : interior.Sealed after := by
  have hscope : ∀ here outer rest, (after.scope here).enclosing = outer :: rest →
      here.index < before.scopes.size := fun here outer rest henclosing =>
    hsize ▸ ScopeTree.lt_size_of_enclosing henclosing
  constructor
  case scopes =>
    intro here outer rest henclosing
    have hgrown := hgrows.scope here (hscope here outer rest henclosing)
    exact h.scopes here outer rest (hgrown.enclosing ▸ henclosing)
  case delegates =>
    intro here outer rest henclosing hdelegates
    have hgrown := hgrows.scope here (hscope here outer rest henclosing)
    exact h.delegates here outer rest (hgrown.enclosing ▸ henclosing)
      (hgrown.delegates ▸ hdelegates)
  case bound =>
    intro id node kinds horigin
    have hid : id.index < before.names.size := by
      by_contra hge
      exact hnew id (Nat.le_of_not_lt hge) node kinds horigin
    obtain ⟨kinds', hbefore⟩ := (hgrows.name id hid).origin.exists_bound_iff.mp ⟨kinds, horigin⟩
    rw [owns_iff_of_grows hgrows hid]
    exact h.bound id node kinds' hbefore

end Interior

/-! ## Trees -/

namespace ScopeTree

variable {interior : Interior} {first second : ScopeTree}

namespace Alike

theorem refl (interior : Interior) (tree : ScopeTree) : tree.Alike interior tree :=
  ⟨rfl, rfl, fun _ => .refl _, fun _ => .refl _, fun _ _ => rfl, fun _ _ => rfl⟩

variable (h : first.Alike interior second)
include h

theorem parallel : first.Parallel second :=
  ⟨h.size_names, fun id => ⟨(h.name id).path, (h.name id).scope?, (h.name id).origin,
    (h.name id).children⟩, h.scope⟩

theorem nextName : second.nextName = first.nextName := h.parallel.nextName

theorem chain (scope : ScopeId) : second.chain scope = first.chain scope := h.parallel.chain scope

/-- What is needed unboxed is no secret. -/
theorem mustUnbox (id : NameId) : second.mustUnbox id = first.mustUnbox id := by
  induction id using NameId.strongInduction with
  | step id ih =>
      have horigin := (h.name id).origin
      rw [ScopeTree.mustUnbox, ScopeTree.mustUnbox, (h.name id).mustUnbox]
      generalize (first.name id).origin = origin at horigin ⊢
      generalize (second.name id).origin = origin' at horigin ⊢
      cases horigin with
      | delegated source =>
          dsimp only
          split
          · next hlt => rw [ih source hlt]
          · rfl
      | _ => rfl

/-- The kinds that a name outside may have do not depend on the inside. -/
theorem possible (hformed : first.Formed) (hsealed : interior.Sealed first) {id : NameId}
    (hid : ¬ interior.Owns first id) : second.possible id = first.possible id := by
  induction id using NameId.strongInduction with
  | step id ih =>
      have hsource : ∀ source, (first.name id).origin.source? = some source →
          source.index < id.index → second.possible source = first.possible source :=
        fun source hsource hlt => ih source hlt
          fun howns => hid (hsealed.owns_of_source hformed hsource howns)
      rw [ScopeTree.possible, ScopeTree.possible, h.origin id hid]
      cases horigin : (first.name id).origin with
      | masked source mask | delegated source =>
          dsimp only
          split
          · next hlt => rw [hsource source (by rw [horigin]; rfl) hlt]
          · rfl
      | _ => rfl

/-! ### Operations -/

theorem modifyName {id : NameId} {change change' : NameRecord → NameRecord}
    (hgrows : (first.name id).Grows (change (first.name id)))
    (hrecord : (change (first.name id)).Alike (change' (second.name id)))
    (horigin : ¬ interior.Owns first id →
      (change' (second.name id)).origin = (change (first.name id)).origin) :
    (first.modifyName id change).Alike interior (second.modifyName id change') := by
  have howns : ∀ other, other.index < first.names.size →
      (interior.Owns (first.modifyName id change) other ↔ interior.Owns first other) :=
    fun other => Interior.owns_iff_of_grows (grows_modifyName hgrows)
  refine ⟨?_, h.size_scopes, fun other => ?_, h.scope, fun other hother => ?_, h.intrinsics⟩
  · rw [size_names_modifyName, size_names_modifyName, h.size_names]
  · rw [name_modifyName, name_modifyName, h.size_names]
    split
    · exact hrecord
    · exact h.name other
  · by_cases hlt : other.index < first.names.size
    · rw [howns other hlt] at hother
      rw [name_modifyName, name_modifyName, h.size_names]
      split
      · next heq =>
        rw [← heq.1] at hother
        exact horigin hother
      · exact h.origin other hother
    · have hge := Nat.le_of_not_lt hlt
      rw [name_of_size_le (by rwa [size_names_modifyName, h.size_names]),
        name_of_size_le (by rwa [size_names_modifyName])]

theorem addName (record : NameRecord) :
    (first.addName record).Alike interior (second.addName record) := by
  refine ⟨?_, h.size_scopes, fun id => ?_, h.scope, fun id hid => ?_, h.intrinsics⟩
  · rw [size_names_addName, size_names_addName, h.size_names]
  · rw [name_addName, name_addName, h.nextName]
    split
    · exact .refl _
    · exact h.name id
  · rw [name_addName, name_addName, h.nextName]
    split
    · rfl
    · next hne =>
      refine h.origin id fun howns => hid ?_
      rwa [Interior.owns_iff_of_grows (grows_addName first record) howns.lt_size]

theorem setEntry (scope : ScopeId) (name : String) (entry : Option NameId) :
    (first.setEntry scope name entry).Alike interior (second.setEntry scope name entry) := by
  refine ⟨h.size_names, ?_, h.name, fun other => ?_, h.origin, fun other hother => ?_⟩
  · exact (size_scopes_modifyScope ..).trans
      (h.size_scopes.trans (size_scopes_modifyScope ..).symm)
  · have hscope := h.scope scope
    unfold ScopeTree.setEntry
    rw [scope_recording, scope_recording, scope_modifyScope, scope_modifyScope, h.size_scopes]
    split
    · exact { hscope with entries := by rw [hscope.entries] }
    · exact h.scope other
  · have hintrinsics : ∀ tree : ScopeTree,
        ((tree.setEntry scope name entry).scope other).intrinsics =
          (tree.scope other).intrinsics := by
      intro tree
      unfold ScopeTree.setEntry
      rw [scope_recording, scope_modifyScope]
      split
      · next heq => rw [heq.1]
      · rfl
    rw [hintrinsics, hintrinsics]
    exact h.intrinsics other hother

theorem define (scope : ScopeId) (name : String) (origin : Origin) :
    (first.define scope name origin).Alike interior (second.define scope name origin) := by
  have hdefined := (h.addName (.new name (some scope) origin)).setEntry scope name
    (some first.nextName)
  rw [ScopeTree.define, ScopeTree.define, h.nextName]
  exact hdefined

theorem setChild (id : NameId) (component : String) (child : NameId) :
    (first.setChild id component child).Alike interior (second.setChild id component child) := by
  have hname := h.name id
  have hchanged : (first.modifyName id fun record =>
      { record with children := record.children.insert component child }).Alike interior
        (second.modifyName id fun record =>
          { record with children := record.children.insert component child }) :=
    h.modifyName ⟨rfl, rfl, .refl _, fun hunbox => hunbox⟩
      ⟨hname.path, hname.scope?, hname.origin, hname.mustUnbox, by rw [hname.children]⟩
      (h.origin id)
  exact ⟨hchanged.size_names, hchanged.size_scopes, hchanged.name, hchanged.scope,
    hchanged.origin, hchanged.intrinsics⟩

theorem addChild (id : NameId) (component : String) (record : NameRecord) :
    (first.addChild id component record).Alike interior (second.addChild id component record) := by
  have hadded := (h.addName record).setChild id component first.nextName
  rw [ScopeTree.addChild, ScopeTree.addChild, h.nextName]
  exact hadded

theorem setIntrinsic {scope : ScopeId} (node : NodeId) {entry entry' : Intrinsic}
    (hentry : ¬ interior.scopes scope → entry' = entry) :
    (first.setIntrinsic scope node entry).Alike interior
      (second.setIntrinsic scope node entry') := by
  have hscope := h.scope scope
  refine ⟨h.size_names, ?_, h.name, fun other => ?_, h.origin, fun other hother => ?_⟩
  · exact (size_scopes_modifyScope ..).trans
      (h.size_scopes.trans (size_scopes_modifyScope ..).symm)
  · unfold ScopeTree.setIntrinsic
    rw [scope_modifyScope, scope_modifyScope, h.size_scopes]
    split
    · exact { hscope with }
    · exact h.scope other
  · unfold ScopeTree.setIntrinsic
    rw [scope_modifyScope, scope_modifyScope, h.size_scopes]
    split
    · next heq =>
      have houtside : ¬ interior.scopes scope := heq.1 ▸ hother
      rw [hentry houtside, h.intrinsics scope houtside]
    · exact h.intrinsics other hother

end Alike

end ScopeTree

end FrameLang
