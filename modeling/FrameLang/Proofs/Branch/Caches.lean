import FrameLang.Proofs.Analysis.Coverage
import FrameLang.Proofs.Branch.Entrance

/-!
# The caches of branches

In every branch of a scope, however deeply the scope is entered, every name of the
scope is bound.  A name that is needed unboxed is bound to a value that has been
checked to be of one kind, which is a kind that the name may have.

## Strategy

`Analysis.Suits` says what a value has to be like to be bound to a name, and all
that a path has obtained suits the names it is bound to.  This is kept by every
entrance (`Enters.suits`).  A value that is passed on suits its new name, since it
agrees with the mask and is not fetched again; a value that does not is fetched.
For the latter to be told from the former, what a scope inherits must not be among
the names of the scope itself (`PassedOn.find?_source`).
-/

namespace FrameLang

namespace Analysis

variable {analysis : Analysis}

/-! ## Definitions -/

/-- The name is the value that an override replaces. -/
def IsReplaced (analysis : Analysis) (name : NameId) : Prop :=
  ∃ kinds, (analysis.tree.name name).origin = .replaced kinds

/-- What a value that a name is bound to is like. -/
structure Suits (analysis : Analysis) (name : NameId) (value : Loadable) : Prop where
  /-- It is unboxed where that is needed. -/
  unboxed : analysis.mustUnbox name = true → ¬ analysis.IsReplaced name →
    ∃ source kinds, value = .unboxed source kinds
  /-- If it is unboxed, it is so to one of the kinds of the name, and not twice. -/
  single : ∀ source kinds, value = .unboxed source kinds →
    (∃ kind ∈ analysis.possible name, kinds = {kind}) ∧
      ∀ inner kinds', source ≠ .unboxed inner kinds'

/-- What may have been obtained when a scope is entered: nothing, or what is known in a branch
of a scope that has been entered before. -/
inductive Handed (analysis : Analysis) : Option Cache → Prop where
  | outside : Handed analysis none
  | inside {scope : ScopeId} {specials : List Special} {current : Option Cache}
      {entrance : Entrance} {cache : Cache} (h : Handed analysis current)
      (henter : analysis.enter? scope specials current = .ok entrance)
      (hcache : cache ∈ entrance.caches) : Handed analysis (some cache)

/-! ## Inherited kinds -/

theorem source?_of_inheritance? {origin : Origin} {source : NameId} {mask : Kinds}
    (h : origin.inheritance? = some (source, mask)) : origin.source? = some source := by
  cases origin with
  | masked other kinds =>
      cases h
      rfl
  | delegated other =>
      cases h
      rfl
  | _ => cases h

/-- An inherited name may have the kinds of its source that the mask lets in. -/
theorem mem_possible_of_inheritance? (hformed : analysis.tree.Formed) {name source : NameId}
    {mask : Kinds}
    (h : (analysis.tree.name name).origin.inheritance? = some (source, mask)) (kind : Kind) :
    kind ∈ analysis.possible name ↔ kind ∈ analysis.possible source ∧ kind ∈ mask := by
  have hlt := (hformed.source name source (source?_of_inheritance? h)).1
  unfold possible
  rw [ScopeTree.possible]
  cases horigin : (analysis.tree.name name).origin with
  | masked other kinds =>
      rw [horigin] at h
      cases h
      simp [hlt]
  | delegated other =>
      rw [horigin] at h
      cases h
      simp [hlt]
  | _ =>
      rw [horigin] at h
      cases h

/-- What a scope inherits is not one of its own names. -/
theorem PassedOn.find?_source (hformed : analysis.tree.Formed) {scope : ScopeId}
    {current : Option Cache} {base : Cache} (h : analysis.PassedOn scope current base)
    {name source : NameId} {mask : Kinds} (hname : name ∈ analysis.tree.allNames scope)
    (hinheritance : (analysis.tree.name name).origin.inheritance? = some (source, mask)) :
    base.find? source = (Cache.layerOn current).find? source := by
  refine h.stays source fun hmem => ?_
  obtain ⟨-, hhome⟩ := ((ScopeTree.mem_allNames hformed).mp hname).home hformed
  obtain ⟨-, hsource⟩ := ((ScopeTree.mem_allNames hformed).mp hmem).home hformed
  obtain ⟨-, -, -, here, outer, rest, hhere, henclosing, houter⟩ :=
    hformed.source name source (source?_of_inheritance? hinheritance)
  obtain rfl : here = scope := Option.some.inj (hhere.symm.trans hhome)
  obtain rfl : outer = here := Option.some.inj (houter.symm.trans hsource)
  exact absurd (hformed.enclosing outer outer rest henclosing).1 (Nat.lt_irrefl _)

/-- Where an inherited name that is not fetched gets its value from. -/
theorem inherited?_of_needsLoad {scope : ScopeId} {current : Option Cache} {base : Cache}
    (hformed : analysis.tree.Formed) (h : analysis.PassedOn scope current base)
    {name source : NameId} {mask : Kinds} (hname : name ∈ analysis.tree.allNames scope)
    (hinheritance : (analysis.tree.name name).origin.inheritance? = some (source, mask))
    (hneeds : analysis.needsLoad base name = false) :
    ∃ value, analysis.inherited? (.layerOn current) name = some value ∧
      (analysis.mustUnbox name && value.backing = .any) = false := by
  have hsource := h.find?_source hformed hname hinheritance
  have hinherited : analysis.inherited? (.layerOn current) name = base.find? source := by
    rw [inherited?, hinheritance, hsource]
    rfl
  rw [needsLoad_of_inheritance? hinheritance] at hneeds
  cases hfind : base.find? source with
  | none =>
      rw [hfind] at hneeds
      cases hneeds
  | some value =>
      rw [hfind] at hneeds
      exact ⟨value, hinherited.trans hfind, hneeds⟩

/-! ## Suitable values -/

theorem suits_of_boxed {name : NameId} {value : Loadable}
    (hboxed : ∀ source kinds, value ≠ .unboxed source kinds)
    (hneeds : analysis.mustUnbox name = true → analysis.IsReplaced name) :
    analysis.Suits name value :=
  ⟨fun hunbox hnot => absurd (hneeds hunbox) hnot,
    fun source kinds heq => absurd heq (hboxed source kinds)⟩

/-- A suitable value that may have every kind is boxed. -/
theorem Suits.boxed {name : NameId} {value : Loadable} (h : analysis.Suits name value)
    (hbacking : value.backing = .any) (source : Loadable) (kinds : Kinds) :
    value ≠ .unboxed source kinds := by
  rintro rfl
  obtain ⟨⟨kind, -, rfl⟩, -⟩ := h.single source kinds rfl
  have hne : ({kind} : Kinds) ≠ .any := by
    cases kind <;> decide
  exact hne hbacking

theorem backing_of_boxed {value : Loadable}
    (h : ∀ source kinds, value ≠ .unboxed source kinds) : value.backing = .any := by
  cases value with
  | unboxed source kinds => exact absurd rfl (h source kinds)
  | _ => rfl

/-- What a fetched name is bound to suits it. -/
theorem Fetched.suits {scope : ScopeId} {base : Cache} {loaded : Loaded} {value : Loadable}
    (h : analysis.Fetched scope base loaded)
    (hboxed : ∀ source kinds, loaded.value ≠ .unboxed source kinds)
    (hyields : loaded.Yields value) : analysis.Suits loaded.name value := by
  cases hyields with
  | direct hdirect =>
      refine suits_of_boxed hboxed fun hunbox => ?_
      rw [Loaded.direct, backing_of_boxed hboxed, h.needsUnbox, hunbox] at hdirect
      simp at hdirect
  | unboxed _ hkind =>
      refine ⟨fun _ _ => ⟨_, _, rfl⟩, ?_⟩
      rintro source kinds ⟨⟩
      exact ⟨⟨_, Kinds.subset_iff.mp h.possible _ hkind, rfl⟩, hboxed⟩

/-- What is passed on, and not fetched again, suits the name that inherits it. -/
theorem Suits.inherited (hformed : analysis.tree.Formed) {current : Cache} {name : NameId}
    {value : Loadable} (hagrees : analysis.Agrees current name value)
    (hcurrent : ∀ source, current.find? source = some value → analysis.Suits source value)
    (hneeds : (analysis.mustUnbox name && value.backing = .any) = false) :
    analysis.Suits name value := by
  obtain ⟨source, mask, hinheritance, hfind, hmeets⟩ := hagrees
  refine ⟨fun hunbox _ => ?_, fun inner kinds heq => ?_⟩
  · -- a boxed value would have been fetched again
    by_contra hnot
    have hbacking : value.backing = .any :=
      backing_of_boxed fun inner kinds heq => hnot ⟨inner, kinds, heq⟩
    simp [hunbox, hbacking] at hneeds
  · obtain ⟨⟨kind, hkind, rfl⟩, hboxed⟩ := (hcurrent source hfind).single inner kinds heq
    rw [heq] at hmeets
    obtain ⟨other, hother, hmask⟩ := Kinds.meets_iff.mp hmeets
    obtain rfl : other = kind := Kinds.mem_singleton.mp hother
    exact ⟨⟨other, (mem_possible_of_inheritance? hformed hinheritance other).mpr
      ⟨hkind, hmask⟩, rfl⟩, hboxed⟩

/-! ## Entering -/

section Entering

variable {scope : ScopeId} {current : Option Cache} {entrance : Entrance} {base cache : Cache}
  {loads : List Loaded} (hformed : analysis.tree.Formed)
  (h : analysis.Enters scope current entrance base loads) (hcache : cache ∈ entrance.caches)

include hformed h hcache in
/-- In every branch every name of the scope is bound. -/
theorem Enters.contains {name : NameId} (hname : name ∈ analysis.tree.allNames scope) :
    cache.contains name = true := by
  unfold Cache.contains
  rcases h.find? hcache name with ⟨hsame, hother⟩ | ⟨loaded, -, -, value, -, hfind⟩
  · rw [hsame]
    have hneeds : analysis.needsLoad base name = false :=
      (h.others name hname).resolve_left fun ⟨loaded, hmem, heq⟩ => hother loaded hmem heq
    have hinherits : ∀ source mask,
        (analysis.tree.name name).origin.inheritance? = some (source, mask) →
          (base.find? name).isSome := by
      intro source mask hinheritance
      obtain ⟨value, hvalue, -⟩ :=
        inherited?_of_needsLoad hformed h.passedOn hname hinheritance hneeds
      rw [(h.passedOn.inherits name hname value hvalue).1]
      rfl
    cases horigin : (analysis.tree.name name).origin with
    | free kinds =>
        rw [needsLoad, horigin] at hneeds
        cases hneeds
    | replaced kinds =>
        rw [h.passedOn.replaced name hname kinds horigin]
        rfl
    | bound node kinds =>
        rw [needsLoad, horigin] at hneeds
        simpa [Cache.contains] using hneeds
    | masked source mask => exact hinherits source mask (by rw [horigin]; rfl)
    | delegated source => exact hinherits source .any (by rw [horigin]; rfl)
    | junk =>
        obtain ⟨hlive, -⟩ := ((ScopeTree.mem_allNames hformed).mp hname).home hformed
        rw [ScopeTree.isJunk, NameRecord.isJunk_eq_false] at hlive
        exact absurd horigin hlive
  · rw [hfind]
    rfl

variable (hcurrent : ∀ name value, (Cache.layerOn current).find? name = some value →
  analysis.Suits name value)

include h hcurrent in
/-- What is at hand on entry and may have every kind is boxed. -/
theorem Enters.boxed {name : NameId} {value : Loadable} (hfind : base.find? name = some value)
    (hbacking : value.backing = .any) (source : Loadable) (kinds : Kinds) :
    value ≠ .unboxed source kinds := by
  by_cases hname : name ∈ analysis.tree.allNames scope
  · by_cases hreplaced : analysis.IsReplaced name
    · obtain ⟨known, horigin⟩ := hreplaced
      obtain rfl := Option.some.inj
        ((h.passedOn.replaced name hname known horigin).symm.trans hfind)
      simp
    · cases hinherited : analysis.inherited? (.layerOn current) name with
      | none =>
          have hstays := h.passedOn.stays name
            fun _ => ⟨hinherited, fun known horigin => hreplaced ⟨known, horigin⟩⟩
          exact (hcurrent name value (hstays.symm.trans hfind)).boxed hbacking source kinds
      | some other =>
          obtain ⟨hbase, origin, mask, -, hfrom, -⟩ :=
            h.passedOn.inherits name hname other hinherited
          obtain rfl := Option.some.inj (hbase.symm.trans hfind)
          exact (hcurrent origin other hfrom).boxed hbacking source kinds
  · have hstays := h.passedOn.stays name fun hmem => absurd hmem hname
    exact (hcurrent name value (hstays.symm.trans hfind)).boxed hbacking source kinds

include hformed h hcache hcurrent in
/-- If all that the path has obtained suits, so does all that is known in a branch. -/
theorem Enters.suits {name : NameId} {value : Loadable} (hfind : cache.find? name = some value) :
    analysis.Suits name value := by
  rcases h.find? hcache name with ⟨hsame, hother⟩ | ⟨loaded, hmem, rfl, other, hyields, hother⟩
  · have hbase : base.find? name = some value := hsame.symm.trans hfind
    by_cases hname : name ∈ analysis.tree.allNames scope
    · have hneeds : analysis.needsLoad base name = false :=
        (h.others name hname).resolve_left fun ⟨loaded, hmem, heq⟩ => hother loaded hmem heq
      by_cases hreplaced : analysis.IsReplaced name
      · obtain ⟨known, horigin⟩ := id hreplaced
        obtain rfl := Option.some.inj
          ((h.passedOn.replaced name hname known horigin).symm.trans hbase)
        exact suits_of_boxed (by simp) fun _ => hreplaced
      · cases hinherited : analysis.inherited? (.layerOn current) name with
        | none =>
            have hstays := h.passedOn.stays name
              fun _ => ⟨hinherited, fun known horigin => hreplaced ⟨known, horigin⟩⟩
            exact hcurrent name value (hstays.symm.trans hbase)
        | some other =>
            obtain ⟨hfound, hagrees⟩ := h.passedOn.inherits name hname other hinherited
            obtain rfl := Option.some.inj (hfound.symm.trans hbase)
            obtain ⟨source, mask, hinheritance, -⟩ := id hagrees
            obtain ⟨again, hagain, hkept⟩ :=
              inherited?_of_needsLoad hformed h.passedOn hname hinheritance hneeds
            obtain rfl := Option.some.inj (hinherited.symm.trans hagain)
            exact .inherited hformed hagrees (fun source hsource => hcurrent source _ hsource) hkept
    · have hstays := h.passedOn.stays name fun hmem => absurd hmem hname
      exact hcurrent name value (hstays.symm.trans hbase)
  · obtain rfl := Option.some.inj (hother.symm.trans hfind)
    have hfetched := h.fetched loaded hmem
    refine hfetched.suits ?_ hyields
    rcases hfetched.value with hboxed | ⟨source, hsource⟩
    · exact hboxed
    · exact h.boxed hcurrent hsource hfetched.backing

end Entering

/-- All that a path has obtained suits the names it is bound to. -/
theorem Handed.suits (hformed : analysis.tree.Formed) {current : Option Cache}
    (h : analysis.Handed current) :
    ∀ name value, (Cache.layerOn current).find? name = some value → analysis.Suits name value := by
  induction h with
  | outside => exact fun name value hfind => by cases hfind
  | inside _ henter hcache ih =>
      obtain ⟨base, loads, henters⟩ := enters_of_enter? hformed henter
      exact fun name value hfind => henters.suits hformed hcache ih hfind

/-! ## Whole units -/

/-- The branches of scopes are complete and well typed, however deeply the scopes are nested.

In every branch every name of the scope is bound, and so is every name that a lookup in the
scope means, unless the lookup went wrong.  A name that is needed unboxed is bound to an
unboxed value, unless it is what an override replaces; and an unboxed value has a single kind,
one that its name may have, and is not unboxed twice. -/
theorem handed_branches_complete (unit : Expr) (file : String) (options : Options)
    {scope : ScopeId} {specials : List Special} {current : Option Cache} {entrance : Entrance}
    {cache : Cache} (hcurrent : (analyse unit file options).Handed current)
    (henter : (analyse unit file options).enter? scope specials current = .ok entrance)
    (hcache : cache ∈ entrance.caches) :
    (∀ name ∈ (analyse unit file options).tree.allNames scope, cache.contains name = true) ∧
    (∀ mark path,
      (analyse unit file options).layout.nodes.find? mark.id = some ⟨.lookup mark path, scope⟩ →
        ∃ name, (analyse unit file options).nameOf? mark.id = some name ∧
          ((analyse unit file options).tree.isJunk name = true ∨ cache.contains name = true)) ∧
    (∀ name, name ∈ (analyse unit file options).tree.allNames scope ∨ cache.contains name = true →
      (analyse unit file options).mustUnbox name = true →
        ¬ (analyse unit file options).IsReplaced name →
          ∃ source kinds, cache.find? name = some (.unboxed source kinds)) ∧
    (∀ name source kinds, cache.find? name = some (.unboxed source kinds) →
      (∃ kind ∈ (analyse unit file options).possible name, kinds = {kind}) ∧
        ∀ inner kinds', source ≠ .unboxed inner kinds') := by
  have hformed := formed_analyse unit file options
  have howned := fun mark path scope =>
    @owned_analyse unit file options mark path scope
  generalize analyse unit file options = analysis at hformed howned hcurrent henter ⊢
  obtain ⟨base, loads, henters⟩ := enters_of_enter? hformed henter
  have hbound : ∀ name ∈ analysis.tree.allNames scope, cache.contains name = true :=
    fun name hname => henters.contains hformed hcache hname
  have hsuits : ∀ name value, cache.find? name = some value → analysis.Suits name value :=
    fun name value hfind => henters.suits hformed hcache (hcurrent.suits hformed) hfind
  refine ⟨hbound, fun mark path hplaced => ?_, fun name hname hunbox hreplaced => ?_,
    fun name source kinds hfind => (hsuits name _ hfind).single source kinds rfl⟩
  · obtain ⟨name, hname, hmeans⟩ := howned mark path scope hplaced
    exact ⟨name, hname, hmeans.imp And.left (hbound name)⟩
  · have hcontains : cache.contains name = true := hname.elim (hbound name) id
    obtain ⟨value, hvalue⟩ := Option.isSome_iff_exists.mp hcontains
    obtain ⟨source, kinds, rfl⟩ := (hsuits name value hvalue).unboxed hunbox hreplaced
    exact ⟨source, kinds, hvalue⟩

/-- The first branch of a scope in which nothing is written. -/
def firstBranch? (analysis : Analysis) (scope : ScopeId) (current : Option Cache) : Option Cache :=
  match analysis.enter? scope [] current with
  | .ok entrance => entrance.caches.head?
  | .error _ => none

theorem exists_entrance_of_firstBranch? {scope : ScopeId} {current : Option Cache} {cache : Cache}
    (h : analysis.firstBranch? scope current = some cache) :
    ∃ entrance, analysis.enter? scope [] current = .ok entrance ∧ cache ∈ entrance.caches := by
  unfold firstBranch? at h
  split at h
  · next entrance henter => exact ⟨entrance, henter, List.mem_of_head? h⟩
  · cases h

/-- A frame in which a name that is looked up inside an operation is bound around it. -/
def nestedSum : Expr :=
  let mark (id : Nat) : Mark := ⟨⟨id⟩, .nowhere⟩
  .frame (mark 0) [.of "r" (.letIn (mark 1) [.of "k" (.lookup (mark 2) ["y"])]
    (.arithmetic (mark 3) .add (.lookup (mark 4) ["x"]) (.lookup (mark 5) ["k"])))]

/-- In the first branch of the inner scope, entered from the first branch of the outer one. -/
theorem handed_branches_complete_nestedSum :
    ∃ outer inner cache, (analyse nestedSum "sum" .default).Handed (some outer) ∧
      (analyse nestedSum "sum" .default).enter? ⟨2⟩ [] (some outer) = .ok inner ∧
      cache ∈ inner.caches ∧
      (∀ name ∈ (analyse nestedSum "sum" .default).tree.allNames ⟨2⟩,
        cache.contains name = true) ∧
      ∃ source kinds, cache.find? ⟨1⟩ = some (.unboxed source kinds) ∧
        ∃ kind ∈ (analyse nestedSum "sum" .default).possible ⟨1⟩, kinds = {kind} := by
  have hbranches : (((analyse nestedSum "sum" .default).firstBranch? ⟨1⟩ none).bind fun outer =>
      (analyse nestedSum "sum" .default).firstBranch? ⟨2⟩ (some outer)).isSome = true := by
    decide +kernel
  have hname : (⟨1⟩ : NameId) ∈ (analyse nestedSum "sum" .default).tree.allNames ⟨2⟩ := by
    decide +kernel
  have hunbox : (analyse nestedSum "sum" .default).mustUnbox ⟨1⟩ = true := by
    decide +kernel
  have horigin : ((analyse nestedSum "sum" .default).tree.name ⟨1⟩).origin =
      .bound ⟨2⟩ .number := by
    decide +kernel
  obtain ⟨cache, hcache⟩ := Option.isSome_iff_exists.mp hbranches
  obtain ⟨outer, houter, hinner⟩ := Option.bind_eq_some_iff.mp hcache
  obtain ⟨entrance, henter, hmem⟩ := exists_entrance_of_firstBranch? houter
  obtain ⟨inner, henter', hmem'⟩ := exists_entrance_of_firstBranch? hinner
  have hhanded := Handed.outside.inside henter hmem
  obtain ⟨hbound, -, hunboxed, hsingle⟩ :=
    handed_branches_complete nestedSum "sum" .default hhanded henter' hmem'
  have hkept : ¬ (analyse nestedSum "sum" .default).IsReplaced ⟨1⟩ := by
    rintro ⟨kinds, hreplaced⟩
    cases horigin.symm.trans hreplaced
  obtain ⟨source, kinds, hfind⟩ := hunboxed ⟨1⟩ (.inl hname) hunbox hkept
  exact ⟨outer, inner, cache, hhanded, henter', hmem', hbound, source, kinds, hfind,
    (hsingle ⟨1⟩ source kinds hfind).1⟩

end Analysis

end FrameLang
