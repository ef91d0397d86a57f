import FrameLang.Proofs.Scope.Couples
import FrameLang.Proofs.Scope.Narrowing

/-!
# Trees that cannot be told apart

The value of a delegated name is the value of its source.  So if the source is needed
unboxed, it makes no difference whether the record of the delegated name says so too.  Two
trees are *akin* when they differ in nothing else (`ScopeTree.Akin`): the same is possible
for each name of them, and the same values are needed unboxed (`ScopeTree.Akin.possible`,
`ScopeTree.Akin.mustUnbox_eq`).

Whatever is done to both of two akin trees comes to the same result, and leaves them akin,
as long as the definitions do not look at the records either (`Definer.Blind`).

## Strategy

A value that is needed unboxed stays needed unboxed, so a record that need not say so will
never need to (`ScopeTree.Akin.grow`).  All steps are instances of this.
-/

namespace FrameLang

/-! ## Definitions -/

/-- Records that differ at most in whether some demand on them needed the value unboxed. -/
structure NameRecord.Akin (first second : NameRecord) : Prop where
  path : second.path = first.path
  scope? : second.scope? = first.scope?
  origin : second.origin = first.origin
  children : second.children = first.children

/-- Trees that differ in nothing but the records of delegated names, and there only in what the
source says anyway. -/
structure ScopeTree.Akin (first second : ScopeTree) : Prop where
  size_names : second.names.size = first.names.size
  scopes : second.scopes = first.scopes
  name : ∀ id, (first.name id).Akin (second.name id)
  unboxed : ∀ id, (second.name id).mustUnbox = (first.name id).mustUnbox ∨
    ∃ source, (first.name id).origin = .delegated source ∧ first.mustUnbox source = true

/-- Sessions that cannot be told apart, but for what has happened in them. -/
structure Session.Akin {σ : Type} (first second : Session σ) : Prop where
  formed : first.tree.Formed
  tree : first.tree.Akin second.tree
  reporter : second.reporter = first.reporter
  defs : second.defs = first.defs

/-- A definer that does not tell akin sessions apart. -/
def Definer.Blind {σ : Type} (definer : Definer σ) : Prop :=
  ∀ node demanded unbox (first second : Session σ), first.Akin second →
    ScopeM.Coupled Session.Akin ((definer node demanded unbox).run first)
      ((definer node demanded unbox).run second)

/-! ## Records -/

namespace NameRecord

theorem Akin.refl (record : NameRecord) : record.Akin record := ⟨rfl, rfl, rfl, rfl⟩

variable {first second third : NameRecord}

theorem Akin.trans (h : first.Akin second) (h' : second.Akin third) : first.Akin third :=
  ⟨h'.path.trans h.path, h'.scope?.trans h.scope?, h'.origin.trans h.origin,
    h'.children.trans h.children⟩

theorem Akin.isJunk (h : first.Akin second) : second.isJunk = first.isJunk := by
  rw [NameRecord.isJunk, h.origin, NameRecord.isJunk]

theorem Akin.afterDemand (h : first.Akin second) (demanded : Kinds) (unbox : Bool) :
    (first.afterDemand demanded unbox).Akin (second.afterDemand demanded unbox) := by
  unfold NameRecord.afterDemand
  rw [h.isJunk]
  split
  · exact h
  · exact ⟨h.path, h.scope?, congrArg (Origin.narrow demanded) h.origin, h.children⟩

theorem Akin.afterProof (h : first.Akin second) (proven : Kinds) :
    (first.afterProof proven).Akin (second.afterProof proven) :=
  ⟨h.path, h.scope?, congrArg (Origin.settle proven) h.origin, h.children⟩

end NameRecord

/-! ## Trees -/

namespace ScopeTree

variable {first second third : ScopeTree}

namespace Akin

theorem refl (tree : ScopeTree) : tree.Akin tree :=
  ⟨rfl, rfl, fun _ => .refl _, fun _ => .inl rfl⟩

section Readers

variable (h : first.Akin second)
include h

theorem scope (id : ScopeId) : second.scope id = first.scope id := by
  rw [ScopeTree.scope, h.scopes, ScopeTree.scope]

theorem parallel : first.Parallel second where
  size_names := h.size_names
  name id := ⟨(h.name id).path, (h.name id).scope?, (h.name id).origin ▸ .refl _,
    (h.name id).children⟩
  scope id := h.scope id ▸ .refl _

theorem nextName : second.nextName = first.nextName := h.parallel.nextName

theorem spanOfName (id : NameId) : second.spanOfName id = first.spanOfName id := by
  rw [ScopeTree.spanOfName, ScopeTree.spanOfName, (h.name id).scope?]
  cases (first.name id).scope? with
  | none => rfl
  | some scope => exact congrArg Scope.span (h.scope scope)

/-- The same is possible for each name. -/
theorem possible (id : NameId) : second.possible id = first.possible id :=
  possible_congr (fun id => (h.name id).origin) id

/-- The same values are needed unboxed. -/
theorem mustUnbox_eq (hformed : first.Formed) (id : NameId) :
    second.mustUnbox id = first.mustUnbox id := by
  induction id using NameId.strongInduction with
  | step id ih =>
      rw [ScopeTree.mustUnbox, ScopeTree.mustUnbox, (h.name id).origin]
      rcases h.unboxed id with hsame | ⟨source, horigin, hneeded⟩
      · rw [hsame]
        cases (first.name id).origin with
        | delegated source =>
            dsimp only
            split
            · next hlt => rw [ih source hlt]
            · rfl
        | _ => rfl
      · have hlt := (hformed.source id source (by rw [horigin]; rfl)).1
        rw [horigin]
        dsimp only
        rw [dif_pos hlt, dif_pos hlt, ih source hlt, hneeded,
          Bool.or_true, Bool.or_true]

end Readers

theorem trans (h : first.Akin second) (h' : second.Akin third) (hformed : first.Formed) :
    first.Akin third where
  size_names := h'.size_names.trans h.size_names
  scopes := h'.scopes.trans h.scopes
  name id := (h.name id).trans (h'.name id)
  unboxed id := by
    rcases h.unboxed id with hsame | hneeded
    · rcases h'.unboxed id with hsame' | ⟨source, horigin, hneeded⟩
      · exact .inl (hsame'.trans hsame)
      · rw [h.mustUnbox_eq hformed] at hneeded
        exact .inr ⟨source, (h.name id).origin ▸ horigin, hneeded⟩
    · exact .inr hneeded

/-! ### Operations -/

section Operations

variable {first' second' : ScopeTree} (h : first.Akin second)
include h

/-- What is akin stays akin when the same is done to both trees, and the one of them is well formed
and has grown. -/
theorem grow (hformed : first.Formed) (hformed' : first'.Formed) (hgrows : first.Retains first')
    (hsize : second'.names.size = first'.names.size) (hscopes : second'.scopes = first'.scopes)
    (hname : ∀ id, (first'.name id).Akin (second'.name id))
    (hunboxed : ∀ id, (second.name id).mustUnbox = (first.name id).mustUnbox →
      (second'.name id).mustUnbox = (first'.name id).mustUnbox) : first'.Akin second' := by
  refine ⟨hsize, hscopes, hname, fun id => ?_⟩
  rcases h.unboxed id with hsame | ⟨source, horigin, hneeded⟩
  · exact .inl (hunboxed id hsame)
  · have hsource : (first.name id).origin.source? = some source := by rw [horigin]; rfl
    have hid := lt_size_of_source hsource
    have hlt := Nat.lt_trans (hformed.source id source hsource).1 hid
    exact .inr ⟨source, (hgrows.name id hid).origin.delegated_iff.mpr horigin,
      mustUnbox_of_grows hformed hformed' hgrows.name hneeded hlt⟩

theorem modifyName (hformed : first.Formed) {id : NameId} {change : NameRecord → NameRecord}
    (hgrows : (first.name id).Grows (change (first.name id)))
    (hchildren : (change (first.name id)).children = (first.name id).children)
    (hrecord : (change (first.name id)).Akin (change (second.name id)))
    (hunboxed : (second.name id).mustUnbox = (first.name id).mustUnbox →
      (change (second.name id)).mustUnbox = (change (first.name id)).mustUnbox) :
    (first.modifyName id change).Akin (second.modifyName id change) := by
  refine h.grow hformed (hformed.modifyName hgrows hchildren)
    (grows_modifyName hgrows).retains ?_ h.scopes (fun other => ?_) fun other hsame => ?_
  · rw [size_names_modifyName, size_names_modifyName, h.size_names]
  · rw [name_modifyName, name_modifyName, h.size_names]
    split
    · exact hrecord
    · exact h.name other
  · rw [name_modifyName, name_modifyName, h.size_names]
    split
    · next heq => exact hunboxed (heq.1 ▸ hsame)
    · exact hsame

theorem name_addName (record : NameRecord) (id : NameId) :
    ((first.addName record).name id).Akin ((second.addName record).name id) ∧
      ((second.name id).mustUnbox = (first.name id).mustUnbox →
        ((second.addName record).name id).mustUnbox =
          ((first.addName record).name id).mustUnbox) := by
  rw [ScopeTree.name_addName, ScopeTree.name_addName, h.nextName]
  split
  · exact ⟨.refl record, fun _ => rfl⟩
  · exact ⟨h.name id, fun hsame => hsame⟩

theorem addName (hformed : first.Formed) {record : NameRecord} (hfits : first.Fits record) :
    (first.addName record).Akin (second.addName record) := by
  refine h.grow hformed (hformed.addName hfits) (grows_addName ..).retains ?_ h.scopes
    (fun id => (h.name_addName record id).1) fun id => (h.name_addName record id).2
  rw [size_names_addName, size_names_addName, h.size_names]

theorem define (hformed : first.Formed) {scope : ScopeId} {name : String} {origin : Origin}
    (hlive : origin ≠ .junk) (hfits : first.Fits (.new name (some scope) origin)) :
    (first.define scope name origin).Akin (second.define scope name origin) := by
  refine h.grow hformed (hformed.define hlive hfits) (retains_define ..) ?_ ?_
    (fun id => (h.name_addName _ id).1) fun id => (h.name_addName _ id).2
  · exact (size_names_addName ..).trans
      ((congrArg Nat.succ h.size_names).trans (size_names_addName ..).symm)
  · simp only [ScopeTree.define, setEntry, modifyScope, scopes_recording, scopes_addName, h.scopes,
      h.nextName]

theorem addChild {id : NameId} {component : String} {record : NameRecord}
    (hformed : first.Formed) (hformed' : (first.addChild id component record).Formed) :
    (first.addChild id component record).Akin (second.addChild id component record) := by
  have hsize : (second.addName record).names.size = (first.addName record).names.size := by
    rw [size_names_addName, size_names_addName, h.size_names]
  have hretains := ((grows_addName first record).trans
    (grows_setChild _ id component first.nextName)).retains
  -- the new child is akin to itself, and its name gets it in both trees
  have hname : ∀ tree : ScopeTree, ∀ other, (tree.addChild id component record).name other =
      if id = other ∧ id.index < (tree.addName record).names.size then
        { (tree.addName record).name id with
          children := ((tree.addName record).name id).children.insert component tree.nextName }
      else (tree.addName record).name other := fun tree other =>
    name_modifyName (tree.addName record) id other _
  refine h.grow hformed hformed' hretains ?_ h.scopes (fun other => ?_) fun other hsame => ?_
  · exact (size_names_modifyName ..).trans (hsize.trans (size_names_modifyName ..).symm)
  · have hrecord := (h.name_addName record id).1
    rw [hname, hname, hsize]
    split
    · exact ⟨hrecord.path, hrecord.scope?, hrecord.origin, by
        dsimp only
        rw [hrecord.children, h.nextName]⟩
    · exact (h.name_addName record other).1
  · rw [hname, hname, hsize]
    split
    · next heq => exact (h.name_addName record id).2 (heq.1 ▸ hsame)
    · exact (h.name_addName record other).2 hsame

theorem setIntrinsic (hformed : first.Formed) {scope : ScopeId} {node : NodeId}
    {entry : Intrinsic}
    (hkinds : ∀ old, (first.scope scope).intrinsics.find? node = some old →
      entry.kinds ⊆ old.kinds) :
    (first.setIntrinsic scope node entry).Akin (second.setIntrinsic scope node entry) := by
  refine h.grow hformed (hformed.setIntrinsic hkinds) (grows_setIntrinsic hkinds).retains
    h.size_names ?_ h.name fun id hsame => hsame
  simp only [ScopeTree.setIntrinsic, modifyScope, h.scopes]

end Operations

end Akin

end ScopeTree

/-! ## Sessions -/

namespace Session

variable {σ : Type} {first second third : Session σ}

theorem name_demanding (session : Session σ) (id other : NameId) (demanded : Kinds)
    (unbox : Bool) :
    (session.demanding id demanded unbox).tree.name other =
      if id = other then (session.tree.name id).afterDemand demanded unbox
      else session.tree.name other := by
  split
  · next heq => exact heq ▸ ScopeTree.name_modifyName_self _ _ rfl
  · next hne => exact ScopeTree.name_modifyName_of_ne _ hne _

namespace Akin

theorem refl {session : Session σ} (h : session.tree.Formed) : session.Akin session :=
  ⟨h, .refl _, rfl, rfl⟩

theorem trans (h : first.Akin second) (h' : second.Akin third) : first.Akin third :=
  ⟨h.formed, h.tree.trans h'.tree h.formed, h'.reporter.trans h.reporter, h'.defs.trans h.defs⟩

variable (h : first.Akin second)
include h

theorem withTree {tree tree' : ScopeTree} (hformed : tree.Formed) (htree : tree.Akin tree') :
    (first.withTree tree).Akin (second.withTree tree') := ⟨hformed, htree, h.reporter, h.defs⟩

theorem withDefs (change : σ → σ) :
    (first.withDefs (change first.defs)).Akin (second.withDefs (change second.defs)) :=
  ⟨h.formed, h.tree, h.reporter, congrArg change h.defs⟩

theorem noting (event event' : Event) : (first.noting event).Akin (second.noting event') :=
  ⟨h.formed, h.tree, h.reporter, h.defs⟩

theorem reporting (change : Reporter → Reporter) :
    (first.reporting (change first.reporter)).Akin (second.reporting (change second.reporter)) :=
  ⟨h.formed, h.tree, congrArg change h.reporter, h.defs⟩

theorem demanding (id : NameId) (demanded : Kinds) (unbox : Bool) :
    (first.demanding id demanded unbox).Akin (second.demanding id demanded unbox) := by
  have hgrows := (first.tree.name id).grows_afterDemand demanded unbox
  have hchildren := NameRecord.children_afterDemand (first.tree.name id) demanded unbox
  refine h.withTree (h.formed.modifyName hgrows hchildren) (h.tree.modifyName h.formed hgrows
    hchildren ((h.tree.name id).afterDemand demanded unbox) fun hsame => ?_)
  rw [NameRecord.mustUnbox_afterDemand, NameRecord.mustUnbox_afterDemand, hsame,
    (h.tree.name id).isJunk]

theorem proving (id : NameId) (proven : Kinds) :
    (first.proving id proven).Akin (second.proving id proven) := by
  have hgrows := (first.tree.name id).grows_afterProof proven
  exact h.withTree (h.formed.modifyName hgrows rfl) (h.tree.modifyName h.formed hgrows rfl
    ((h.tree.name id).afterProof proven) fun hsame => hsame)

end Akin

end Session

namespace ScopeM

open Session (Akin)

variable {σ : Type} {definer : Definer σ} {first second : Session σ}

theorem Coupled.trans {α : Type} {first second third : α × Session σ}
    (h : Coupled Akin first second) (h' : Coupled Akin second third) : Coupled Akin first third :=
  ⟨h'.value.trans h.value, h.related.trans h'.related⟩

/-! ## Demands -/

/-- A demand on a name goes on in the same way in two sessions that are akin once it has been
noted with the record of the name, given that this is so for the names before. -/
theorem follow_coupled_of (hblind : definer.Blind) {id : NameId} {demanded : Kinds} {unbox : Bool}
    (hrecord : (first.tree.name id).Akin (second.tree.name id))
    (hspan : second.tree.spanOfName id = first.tree.spanOfName id)
    (hreporter : second.reporter = first.reporter)
    (h : (first.demanding id demanded unbox).Akin (second.demanding id demanded unbox))
    (hsource : ∀ source : NameId, source.index < id.index →
      Coupled Akin
        ((follow definer source demanded unbox).run (first.demanding id demanded unbox))
        ((follow definer source demanded unbox).run (second.demanding id demanded unbox))) :
    Coupled Akin ((follow definer id demanded unbox).run first)
      ((follow definer id demanded unbox).run second) := by
  rw [run_follow, run_follow, hrecord.origin]
  cases (first.tree.name id).origin.answer demanded with
  | settled proven => exact ⟨rfl, h⟩
  | refused known =>
      refine ⟨rfl, ?_⟩
      dsimp only
      rw [hspan, hrecord.path, hreporter]
      exact ⟨h.formed, h.tree, rfl, h.defs⟩
  | passOn source =>
      dsimp only
      split
      · next hlt => exact hsource source hlt
      · exact ⟨rfl, h⟩
  | define node =>
      have hdefined := hblind node demanded unbox _ _
        (h.noting (.defining node demanded unbox) (.defining node demanded unbox))
      refine ⟨hdefined.value, ?_⟩
      dsimp only
      rw [hdefined.value]
      exact hdefined.related.proving id _

theorem follow_coupled (hblind : definer.Blind) (id : NameId) (demanded : Kinds) (unbox : Bool)
    (h : first.Akin second) :
    Coupled Akin ((follow definer id demanded unbox).run first)
      ((follow definer id demanded unbox).run second) := by
  induction id using NameId.strongInduction generalizing first second with
  | step id ih =>
      have hdemanding := h.demanding id demanded unbox
      exact follow_coupled_of hblind (h.tree.name id) (h.tree.spanOfName id) h.reporter hdemanding
        fun source hlt => ih source hlt hdemanding

theorem ensure_coupled (hblind : definer.Blind) (id : NameId) (demanded : Kinds) (unbox : Bool)
    (h : first.Akin second) :
    Coupled Akin ((ensure definer id demanded unbox).run first)
      ((ensure definer id demanded unbox).run second) := by
  have hfollowed := follow_coupled hblind id demanded unbox
    (h.noting (.asked id demanded unbox) (.asked id demanded unbox))
  rw [run_ensure, run_ensure]
  exact ⟨hfollowed.value, hfollowed.related.noting _ _⟩

theorem ensureIntrinsic_coupled (scope : ScopeId) (node : NodeId) (demanded : Kinds) (unbox : Bool)
    (span : Span) (h : first.Akin second) :
    Coupled Akin ((ensureIntrinsic scope node demanded unbox span).run first)
      ((ensureIntrinsic scope node demanded unbox span).run second) := by
  have hkinds : ∀ kinds, kinds ⊆ (((first.tree.scope scope).intrinsics.find? node).getD
      ⟨demanded, unbox⟩).kinds → ∀ old,
        (first.tree.scope scope).intrinsics.find? node = some old → kinds ⊆ old.kinds := by
    intro kinds hsubset old hold
    rwa [hold] at hsubset
  have hput : ∀ entry : Intrinsic, entry.kinds ⊆ (((first.tree.scope scope).intrinsics.find?
      node).getD ⟨demanded, unbox⟩).kinds →
        (first.withTree (first.tree.setIntrinsic scope node entry)).Akin
          (second.withTree (second.tree.setIntrinsic scope node entry)) :=
    fun entry hsubset => h.withTree (h.formed.setIntrinsic (hkinds _ hsubset))
      (h.tree.setIntrinsic h.formed (hkinds _ hsubset))
  rw [run_ensureIntrinsic, run_ensureIntrinsic, h.tree.scope]
  generalize ((first.tree.scope scope).intrinsics.find? node).getD ⟨demanded, unbox⟩ = entry
    at hput
  dsimp only
  split
  · exact ⟨rfl, hput _ (Kinds.subset_iff.mpr fun _ hkind => (Kinds.mem_inter.mp hkind).1)⟩
  · exact ⟨rfl, (hput entry (Kinds.subset_refl _)).reporting
      (·.expressionConflict span entry.kinds demanded)⟩

/-! ## Lookups -/

/-- What a lookup does on the way leaves akin sessions akin. -/
theorem couples_akin (hblind : definer.Blind) : Couples definer definer Akin where
  formed h := h.formed
  tree h := h.tree.parallel
  reporting code message span h := h.reporting fun reporter => reporter.error code message span
  junk h := h.withTree (h.formed.addName (ScopeTree.fits_junk ..))
    (h.tree.addName h.formed (ScopeTree.fits_junk ..))
  define h hlive _ hfits _ := h.withTree (h.formed.define hlive hfits)
    (h.tree.define h.formed hlive hfits)
  addChild h hformed _ := h.withTree hformed (h.tree.addChild h.formed hformed)
  ensure id h := by
    have hensured := ensure_coupled hblind id {.frame} false h
    exact hensured.related

end ScopeM

end FrameLang
