import FrameLang.Branch.Entrance
import FrameLang.Proofs.Scope.Ownership

/-!
# What a path obtains on entry to a scope

On entry to a scope a path has what it has obtained before, what overrides replace,
and what the names of the scope inherit (`Analysis.passedOn_passOn`).  What is fetched
on top of that is settled one name after the other, and the names that are dispatched
over come last (`Analysis.Enters`).

## Strategy

A fetched name may come to be bound to several values, depending on its kinds and on
the branch; `Loaded.Yields` says to which.  In every branch a name is bound to what
one of its loads yields, or, if it is not fetched, to what it was bound to before
(`Analysis.Enters.find?`).
-/

namespace FrameLang

/-- The values that a fetched name may be bound to. -/
inductive Loaded.Yields (loaded : Loaded) : Loadable → Prop where
  /-- The fetched value is used as it is. -/
  | direct (h : loaded.direct = true) : Yields loaded loaded.value
  /-- The fetched value is checked to have one of its kinds. -/
  | unboxed (h : loaded.direct = false) {kind : Kind} (hkind : kind ∈ loaded.possible) :
      Yields loaded (.unboxed loaded.value {kind})

namespace Kinds

/-- A set with exactly one member is the set of that member. -/
theorem eq_singleton_of_isSingleton {kinds : Kinds} (h : kinds.isSingleton = true) :
    ∃ kind, kind ∈ kinds ∧ kinds = {kind} := by
  have hlength : kinds.toList.length = 1 := of_decide_eq_true h
  obtain ⟨kind, hlist⟩ := List.length_eq_one_iff.mp hlength
  have hmem : ∀ other, other ∈ kinds ↔ other = kind := by
    intro other
    rw [← mem_toList, hlist, List.mem_singleton]
  refine ⟨kind, (hmem kind).mpr rfl, ?_⟩
  ext other
  rw [hmem, mem_singleton]

end Kinds

namespace Entrance

/-! ## Branches -/

/-- In a branch, a name that is dispatched over has one of its kinds, and every other name is
bound as before. -/
theorem find?_of_mem_branches {dispatch : List Loaded} {cache branch : Cache}
    (h : branch ∈ branches cache dispatch) (name : NameId) :
    (branch.find? name = cache.find? name ∧ ∀ loaded ∈ dispatch, loaded.name ≠ name) ∨
      ∃ loaded ∈ dispatch, loaded.name = name ∧
        ∃ kind ∈ loaded.possible, branch.find? name = some (.unboxed loaded.value {kind}) := by
  induction dispatch generalizing cache with
  | nil =>
      obtain rfl := List.mem_singleton.mp h
      exact .inl ⟨rfl, by simp⟩
  | cons loaded rest ih =>
      rw [branches, List.mem_flatMap] at h
      obtain ⟨kind, hkind, hbranch⟩ := h
      rw [Kinds.mem_toList] at hkind
      rcases ih hbranch with ⟨hfind, hother⟩ | ⟨other, hmem, hname, hfind⟩
      · rw [Loaded.find?_branch] at hfind
        split at hfind
        · next heq => exact .inr ⟨loaded, List.mem_cons_self, heq, kind, hkind, hfind⟩
        · next hne => exact .inl ⟨hfind, by simpa [hne] using hother⟩
      · exact .inr ⟨other, List.mem_cons_of_mem _ hmem, hname, hfind⟩

end Entrance

namespace Analysis

variable {analysis : Analysis}

/-! ## Settling loads -/

/-- What settling a fetched name does. -/
theorem settleLoad_ok {before after : Entrance} {loaded : Loaded}
    (h : analysis.settleLoad before loaded = .ok after) :
    (∃ value, loaded.Yields value ∧ after.base = before.base.insert loaded.name value ∧
      after.dispatch = before.dispatch) ∨
    (loaded.direct = false ∧ after.base = before.base ∧
      after.dispatch = before.dispatch ++ [loaded]) := by
  unfold settleLoad at h
  split at h
  · cases h
  · split at h
    · next hdirect =>
      cases h
      exact .inl ⟨_, .direct hdirect, rfl, rfl⟩
    · next hdirect =>
      have hdirect : loaded.direct = false := Bool.eq_false_iff.mpr hdirect
      split at h
      · next hsingle =>
        cases h
        obtain ⟨kind, hkind, heq⟩ := Kinds.eq_singleton_of_isSingleton hsingle
        refine .inl ⟨_, .unboxed hdirect hkind, ?_, rfl⟩
        rw [heq]
      · cases h
        exact .inr ⟨hdirect, rfl, rfl⟩

/-- What settling one fetched name after the other does. -/
structure Settles (loads : List Loaded) (before after : Entrance) : Prop where
  base : ∀ name, after.base.find? name = before.base.find? name ∨
    ∃ loaded ∈ loads, loaded.name = name ∧
      ∃ value, loaded.Yields value ∧ after.base.find? name = some value
  settled : ∀ loaded ∈ loads, loaded ∈ after.dispatch ∨
    ∃ other ∈ loads, other.name = loaded.name ∧
      ∃ value, other.Yields value ∧ after.base.find? loaded.name = some value
  dispatch : ∀ loaded ∈ after.dispatch, loaded ∈ before.dispatch ∨
    (loaded ∈ loads ∧ loaded.direct = false)
  still : before.dispatch ⊆ after.dispatch

theorem settles_settleLoad {before after : Entrance} {loaded : Loaded}
    (h : analysis.settleLoad before loaded = .ok after) : Settles [loaded] before after := by
  rcases settleLoad_ok h with ⟨value, hyields, hbase, hdispatch⟩ | ⟨hdirect, hbase, hdispatch⟩
  · have hfind : ∀ name, after.base.find? name =
        if loaded.name = name then some value else before.base.find? name := fun name => by
      rw [hbase, Cache.find?_insert]
    refine ⟨fun name => ?_, fun other hother => ?_, ?_, ?_⟩
    · by_cases hname : loaded.name = name
      · exact .inr ⟨loaded, List.mem_cons_self, hname, value, hyields, by rw [hfind, if_pos hname]⟩
      · exact .inl (by rw [hfind, if_neg hname])
    · obtain rfl := List.mem_singleton.mp hother
      exact .inr ⟨other, hother, rfl, value, hyields, by rw [hfind, if_pos rfl]⟩
    · exact fun other hother => .inl (hdispatch ▸ hother)
    · exact fun other hother => hdispatch ▸ hother
  · refine ⟨fun name => .inl (by rw [hbase]), fun other hother => ?_, ?_, ?_⟩
    · obtain rfl := List.mem_singleton.mp hother
      exact .inl (hdispatch ▸ List.mem_append_right _ hother)
    · intro other hother
      rw [hdispatch] at hother
      rcases List.mem_append.mp hother with hother | hother
      · exact .inl hother
      · obtain rfl := List.mem_singleton.mp hother
        exact .inr ⟨hother, hdirect⟩
    · rw [hdispatch]
      exact List.subset_append_left _ _

theorem Settles.append {loads loads' : List Loaded} {first second third : Entrance}
    (h : Settles loads first second) (h' : Settles loads' second third) :
    Settles (loads ++ loads') first third := by
  refine ⟨fun name => ?_, fun loaded hloaded => ?_, fun loaded hloaded => ?_, List.Subset.trans h.still h'.still⟩
  · rcases h'.base name with hsame | ⟨loaded, hmem, hrest⟩
    · rw [hsame]
      rcases h.base name with hsame | ⟨loaded, hmem, hrest⟩
      · exact .inl hsame
      · exact .inr ⟨loaded, List.mem_append_left _ hmem, hrest⟩
    · exact .inr ⟨loaded, List.mem_append_right _ hmem, hrest⟩
  · rcases List.mem_append.mp hloaded with hmem | hmem
    · rcases h.settled loaded hmem with hdispatch | ⟨other, hother, hname, value, hyields, hfind⟩
      · exact .inl (h'.still hdispatch)
      · -- what has been settled may be settled once more
        rcases h'.base loaded.name with hsame | ⟨again, hagain, hrest⟩
        · exact .inr ⟨other, List.mem_append_left _ hother, hname, value, hyields,
            hsame.trans hfind⟩
        · exact .inr ⟨again, List.mem_append_right _ hagain, hrest⟩
    · rcases h'.settled loaded hmem with hdispatch | ⟨other, hother, hrest⟩
      · exact .inl hdispatch
      · exact .inr ⟨other, List.mem_append_right _ hother, hrest⟩
  · rcases h'.dispatch loaded hloaded with hbefore | ⟨hmem, hdirect⟩
    · rcases h.dispatch loaded hbefore with hbefore | ⟨hmem, hdirect⟩
      · exact .inl hbefore
      · exact .inr ⟨List.mem_append_left _ hmem, hdirect⟩
    · exact .inr ⟨List.mem_append_right _ hmem, hdirect⟩

theorem settles_of_foldlM {loads : List Loaded} {before after : Entrance}
    (h : loads.foldlM analysis.settleLoad before = .ok after) : Settles loads before after := by
  induction loads generalizing before with
  | nil =>
      cases h
      exact ⟨fun _ => .inl rfl, by simp, fun _ hmem => .inl hmem, fun _ hmem => hmem⟩
  | cons loaded rest ih =>
      rw [List.foldlM_cons] at h
      cases hloaded : analysis.settleLoad before loaded with
      | error refusal =>
          rw [hloaded] at h
          cases h
      | ok middle =>
          rw [hloaded] at h
          exact (settles_settleLoad hloaded).append (ih h)

/-! ## What is passed on -/

/-- What a name inherits from what a path has obtained. -/
def inherited? (analysis : Analysis) (current : Cache) (name : NameId) : Option Loadable :=
  (analysis.tree.name name).origin.inheritance?.bind fun inheritance =>
    current.find? inheritance.1

/-- What is replaced by overrides is at hand, and nothing else changes. -/
theorem find?_withReplaced (names : List NameId) (cache : Cache) (name : NameId) :
    ((analysis.withReplaced names cache).find? name = some .replaced ∧ name ∈ names ∧
      ∃ kinds, (analysis.tree.name name).origin = .replaced kinds) ∨
    ((analysis.withReplaced names cache).find? name = cache.find? name ∧
      (name ∈ names → ∀ kinds, (analysis.tree.name name).origin ≠ .replaced kinds)) := by
  induction names generalizing cache with
  | nil => exact .inr ⟨rfl, by simp⟩
  | cons head rest ih =>
      have hstep : ∃ next, analysis.withReplaced (head :: rest) cache =
          analysis.withReplaced rest next ∧
            ((∃ kinds, (analysis.tree.name head).origin = .replaced kinds) ∧
                next = cache.insert head .replaced ∨
              (∀ kinds, (analysis.tree.name head).origin ≠ .replaced kinds) ∧ next = cache) := by
        rw [withReplaced, List.foldl_cons]
        refine ⟨_, rfl, ?_⟩
        cases (analysis.tree.name head).origin with
        | replaced kinds => exact .inl ⟨⟨kinds, rfl⟩, rfl⟩
        | _ => exact .inr ⟨by simp, rfl⟩
      obtain ⟨next, hnext, hhead⟩ := hstep
      rw [hnext]
      rcases ih next with ⟨hfind, hmem, horigin⟩ | ⟨hfind, hrest⟩
      · exact .inl ⟨hfind, List.mem_cons_of_mem _ hmem, horigin⟩
      · rcases hhead with ⟨horigin, rfl⟩ | ⟨horigin, rfl⟩
        · rw [Cache.find?_insert] at hfind
          by_cases hname : head = name
          · subst hname
            exact .inl ⟨hfind.trans (if_pos rfl), List.mem_cons_self, horigin⟩
          · refine .inr ⟨hfind.trans (if_neg hname), fun hmem => ?_⟩
            exact hrest ((List.mem_cons.mp hmem).resolve_left fun heq => hname heq.symm)
        · refine .inr ⟨hfind, fun hmem => ?_⟩
          rcases List.mem_cons.mp hmem with rfl | hmem
          · exact horigin
          · exact hrest hmem

theorem inherit_of_inherited? {current : Cache} {name : NameId} (state : Cache × List Violation)
    {value : Loadable} (h : analysis.inherited? current name = some value) :
    ∃ source mask, (analysis.tree.name name).origin.inheritance? = some (source, mask) ∧
      current.find? source = some value ∧
        analysis.inherit current state name =
          if value.backing.meets mask then (state.1.insert name value, state.2)
          else (state.1, state.2 ++ [⟨(analysis.tree.name name).path, mask, value.backing⟩]) := by
  unfold inherited? at h
  obtain ⟨⟨source, mask⟩, hinheritance, hfind⟩ := Option.bind_eq_some_iff.mp h
  refine ⟨source, mask, hinheritance, hfind, ?_⟩
  unfold inherit
  simp only [hinheritance, hfind]

theorem inherit_of_inherited?_eq_none {current : Cache} {name : NameId}
    (state : Cache × List Violation) (h : analysis.inherited? current name = none) :
    analysis.inherit current state name = state := by
  unfold inherit
  cases hinheritance : (analysis.tree.name name).origin.inheritance? with
  | none => simp only [hinheritance]
  | some inheritance =>
      obtain ⟨source, mask⟩ := inheritance
      have hfind : current.find? source = none := by
        rw [inherited?, hinheritance] at h
        exact h
      simp only [hinheritance, hfind]

/-- A value that a name inherits agrees with the mask of the name. -/
def Agrees (analysis : Analysis) (current : Cache) (name : NameId) (value : Loadable) : Prop :=
  ∃ source mask, (analysis.tree.name name).origin.inheritance? = some (source, mask) ∧
    current.find? source = some value ∧ value.backing.meets mask = true

/-- If there are no violations, the names are bound to what they inherit. -/
theorem find?_foldl_inherit {current : Cache} {names : List NameId}
    {state : Cache × List Violation}
    (h : (names.foldl (analysis.inherit current) state).2 = []) :
    state.2 = [] ∧
    (∀ name ∈ names, ∀ value, analysis.inherited? current name = some value →
      (names.foldl (analysis.inherit current) state).1.find? name = some value ∧
        analysis.Agrees current name value) ∧
    (∀ name, (name ∈ names → analysis.inherited? current name = none) →
      (names.foldl (analysis.inherit current) state).1.find? name = state.1.find? name) := by
  induction names generalizing state with
  | nil => exact ⟨h, by simp, fun _ _ => rfl⟩
  | cons head rest ih =>
      rw [List.foldl_cons] at h ⊢
      obtain ⟨hnone, hinherits, hstays⟩ := ih h
      cases hhead : analysis.inherited? current head with
      | none =>
          have hstate := inherit_of_inherited?_eq_none state hhead
          rw [hstate] at hnone hinherits hstays ⊢
          refine ⟨hnone, fun name hname value hvalue => ?_, fun name hname => ?_⟩
          · rcases List.mem_cons.mp hname with rfl | hmem
            · cases hhead.symm.trans hvalue
            · exact hinherits name hmem value hvalue
          · exact hstays name fun hmem => hname (List.mem_cons_of_mem _ hmem)
      | some value =>
          obtain ⟨source, mask, hinheritance, hfind, hstate⟩ := inherit_of_inherited? state hhead
          -- a value that does not agree would have been a violation
          have hmeets : value.backing.meets mask = true := by
            by_contra hnot
            rw [hstate, if_neg hnot] at hnone
            simp at hnone
          rw [hstate, if_pos hmeets] at hnone hinherits hstays ⊢
          refine ⟨hnone, fun name hname other hother => ?_, fun name hname => ?_⟩
          · by_cases hmem : name ∈ rest
            · exact hinherits name hmem other hother
            · obtain rfl : name = head := (List.mem_cons.mp hname).resolve_right hmem
              obtain rfl := Option.some.inj (hhead.symm.trans hother)
              refine ⟨(hstays name fun hin => absurd hin hmem).trans ?_,
                source, mask, hinheritance, hfind, hmeets⟩
              exact (Cache.find?_insert ..).trans (if_pos rfl)
          · have hne : ¬ head = name := by
              rintro rfl
              cases hhead.symm.trans (hname List.mem_cons_self)
            refine (hstays name fun hmem => hname (List.mem_cons_of_mem _ hmem)).trans ?_
            exact (Cache.find?_insert ..).trans (if_neg hne)

/-- What a scope finds on entry before anything is fetched. -/
structure PassedOn (analysis : Analysis) (scope : ScopeId) (current : Option Cache)
    (base : Cache) : Prop where
  inherits : ∀ name ∈ analysis.tree.allNames scope, ∀ value,
    analysis.inherited? (.layerOn current) name = some value →
      base.find? name = some value ∧ analysis.Agrees (.layerOn current) name value
  replaced : ∀ name ∈ analysis.tree.allNames scope, ∀ kinds,
    (analysis.tree.name name).origin = .replaced kinds → base.find? name = some .replaced
  stays : ∀ name, (name ∈ analysis.tree.allNames scope →
    analysis.inherited? (.layerOn current) name = none ∧
      ∀ kinds, (analysis.tree.name name).origin ≠ .replaced kinds) →
        base.find? name = (Cache.layerOn current).find? name

theorem passedOn_passOn {scope : ScopeId} {current : Option Cache}
    (h : (analysis.passOn scope current).2 = []) :
    analysis.PassedOn scope current (analysis.passOn scope current).1 := by
  -- what is replaced is not inherited
  have hlone : ∀ cache name kinds, (analysis.tree.name name).origin = .replaced kinds →
      analysis.inherited? cache name = none := by
    intro cache name kinds horigin
    rw [inherited?, horigin]
    rfl
  have hreplaced : ∀ name ∈ analysis.tree.allNames scope, ∀ kinds,
      (analysis.tree.name name).origin = .replaced kinds →
        (analysis.withReplaced (analysis.tree.allNames scope) (.layerOn current)).find? name =
          some .replaced := by
    intro name hname kinds horigin
    rcases find?_withReplaced (analysis.tree.allNames scope) (.layerOn current) name with
      ⟨hfind, -⟩ | ⟨-, hother⟩
    · exact hfind
    · exact absurd horigin (hother hname kinds)
  have hstays : ∀ name, (name ∈ analysis.tree.allNames scope →
      ∀ kinds, (analysis.tree.name name).origin ≠ .replaced kinds) →
        (analysis.withReplaced (analysis.tree.allNames scope) (.layerOn current)).find? name =
          (Cache.layerOn current).find? name := by
    intro name hname
    rcases find?_withReplaced (analysis.tree.allNames scope) (.layerOn current) name with
      ⟨-, hmem, kinds, horigin⟩ | ⟨hfind, -⟩
    · exact absurd horigin (hname hmem kinds)
    · exact hfind
  cases current with
  | none =>
      have hnothing : ∀ name, analysis.inherited? (.layerOn none) name = none := by
        intro name
        unfold inherited?
        cases (analysis.tree.name name).origin.inheritance? <;> rfl
      refine ⟨fun name _ value hvalue => ?_, hreplaced, fun name hname => ?_⟩
      · cases (hnothing name).symm.trans hvalue
      · exact hstays name fun hmem => (hname hmem).2
  | some cache =>
      obtain ⟨-, hinherits, hsame⟩ := find?_foldl_inherit h
      refine ⟨hinherits, fun name hname kinds horigin => ?_, fun name hname => ?_⟩
      · rw [← hreplaced name hname kinds horigin]
        exact hsame name fun _ => hlone cache name kinds horigin
      · rw [← hstays name fun hmem => (hname hmem).2]
        exact hsame name fun hmem => (hname hmem).1

/-! ## Fetching -/

/-- What the names of a scope that are not written by the scope itself come to. -/
def fetch? (analysis : Analysis) (written : List Loaded) (base : Cache) (name : NameId) :
    Except Refusal (Option Loaded) :=
  if name ∈ written.map Loaded.name || !analysis.needsLoad base name then pure none
  else (analysis.load base name).map some

/-- A name that is fetched into a scope, with kinds that are possible.  Its value is boxed, if
it does not come from what is at hand already. -/
structure Fetched (analysis : Analysis) (scope : ScopeId) (base : Cache) (loaded : Loaded) :
    Prop where
  name : loaded.name ∈ analysis.tree.allNames scope
  possible : loaded.possible ⊆ analysis.possible loaded.name
  needsUnbox : loaded.needsUnbox = analysis.mustUnbox loaded.name
  backing : loaded.value.backing = .any
  value : (∀ source kinds, loaded.value ≠ .unboxed source kinds) ∨
    ∃ source, base.find? source = some loaded.value

/-- If no step fails, what is found is what the steps come to. -/
theorem exists_result_of_filterMapM {α β ε : Type} {step : α → Except ε (Option β)}
    {items : List α} {found : List β} (h : items.filterMapM step = .ok found) :
    ∃ result : α → Option β, (∀ item ∈ items, step item = .ok (result item)) ∧
      items.filterMap result = found := by
  refine ⟨fun item => (step item).toOption.join, ?_⟩
  induction items generalizing found with
  | nil =>
      cases h
      exact ⟨by simp, rfl⟩
  | cons item rest ih =>
      rw [List.filterMapM_cons] at h
      cases hitem : step item with
      | error refusal =>
          rw [hitem] at h
          cases h
      | ok first =>
          rw [hitem] at h
          cases hrest : rest.filterMapM step with
          | error refusal =>
              cases first with
              | none => cases hrest.symm.trans h
              | some result =>
                  change (rest.filterMapM step >>= _) = _ at h
                  rw [hrest] at h
                  cases h
          | ok others =>
              obtain ⟨hsteps, hothers⟩ := ih hrest
              have hfirst : step item = .ok (step item).toOption.join := by
                rw [hitem]
                rfl
              refine ⟨List.forall_mem_cons.mpr ⟨hfirst, hsteps⟩, ?_⟩
              rw [List.filterMap_cons, hitem, hothers]
              cases first with
              | none => exact Except.ok.inj (hrest.symm.trans h)
              | some result =>
                  change (rest.filterMapM step >>= _) = _ at h
                  rw [hrest] at h
                  exact Except.ok.inj h

theorem mem_of_filterMapM {α β ε : Type} {step : α → Except ε (Option β)} {items : List α}
    {found : List β} (h : items.filterMapM step = .ok found) :
    (∀ result ∈ found, ∃ item ∈ items, step item = .ok (some result)) ∧
      ∀ item ∈ items, step item = .ok none ∨ ∃ result ∈ found, step item = .ok (some result) := by
  obtain ⟨result, hsteps, rfl⟩ := exists_result_of_filterMapM h
  refine ⟨fun other hother => ?_, fun item hitem => ?_⟩
  · obtain ⟨item, hitem, hresult⟩ := List.mem_filterMap.mp hother
    exact ⟨item, hitem, hresult ▸ hsteps item hitem⟩
  · cases hresult : result item with
    | none => exact .inl (hresult ▸ hsteps item hitem)
    | some other =>
        exact .inr ⟨other, List.mem_filterMap.mpr ⟨item, hitem, hresult⟩, hresult ▸ hsteps item hitem⟩

/-- An inherited name is fetched if what it is inherited from has not been obtained, or only as a
value that has to be looked at. -/
theorem needsLoad_of_inheritance? {base : Cache} {name source : NameId} {mask : Kinds}
    (h : (analysis.tree.name name).origin.inheritance? = some (source, mask)) :
    analysis.needsLoad base name = (base.find? source).elim true fun value =>
      analysis.mustUnbox name && value.backing = .any := by
  unfold needsLoad
  cases horigin : (analysis.tree.name name).origin with
  | masked other kinds =>
      rw [horigin] at h
      cases h
      cases hfind : base.find? source <;> simp [hfind]
  | delegated other =>
      rw [horigin] at h
      cases h
      cases hfind : base.find? source <;> simp [hfind]
  | _ =>
      rw [horigin] at h
      cases h

/-- What it takes to fetch a name. -/
theorem fetched_of_fetch? {scope : ScopeId} {written : List Loaded} {base : Cache} {name : NameId}
    {loaded : Loaded} (hname : name ∈ analysis.tree.allNames scope)
    (h : analysis.fetch? written base name = .ok (some loaded)) :
    analysis.Fetched scope base loaded ∧ loaded.name = name := by
  unfold fetch? at h
  split at h
  · cases h
  · next hcondition =>
    simp only [Bool.or_eq_true, Bool.not_eq_true', not_or, Bool.not_eq_false] at hcondition
    obtain ⟨-, hneeds⟩ := hcondition
    have hself : analysis.possible name ⊆ analysis.possible name :=
      Kinds.subset_iff.mpr fun _ hkind => hkind
    have hinherited : ∀ source, (∀ value, base.find? source = some value →
        value.backing = .any) →
          analysis.Fetched scope base ⟨name,
            (base.find? source).getD (.lookup (analysis.tree.name name).path),
              analysis.possible name, analysis.mustUnbox name⟩ := by
      intro source hany
      cases hfind : base.find? source with
      | none => exact ⟨hname, hself, rfl, rfl, .inl (by simp)⟩
      | some value => exact ⟨hname, hself, rfl, hany value hfind, .inr ⟨source, hfind⟩⟩
    have hany : ∀ source mask,
        (analysis.tree.name name).origin.inheritance? = some (source, mask) →
          ∀ value, base.find? source = some value → value.backing = .any := by
      intro source mask hinheritance value hvalue
      rw [needsLoad_of_inheritance? hinheritance, hvalue, Option.elim_some,
        Bool.and_eq_true] at hneeds
      exact of_decide_eq_true hneeds.2
    unfold load at h
    cases horigin : (analysis.tree.name name).origin with
    | junk =>
        simp only [horigin] at h
        cases h
    | replaced kinds =>
        rw [needsLoad, horigin] at hneeds
        cases hneeds
    | free kinds =>
        simp only [horigin] at h
        cases h
        exact ⟨⟨hname, hself, rfl, rfl, .inl (by simp)⟩, rfl⟩
    | bound node kinds =>
        simp only [horigin] at h
        cases h
        exact ⟨⟨hname, hself, rfl, rfl, .inl (by simp)⟩, rfl⟩
    | masked source mask =>
        simp only [horigin] at h
        cases h
        exact ⟨hinherited source (hany source mask (by rw [horigin]; rfl)), rfl⟩
    | delegated source =>
        simp only [horigin] at h
        cases h
        exact ⟨hinherited source (hany source .any (by rw [horigin]; rfl)), rfl⟩

/-- What a scope writes itself counts as fetched. -/
theorem fetched_of_loadSpecial? (hformed : analysis.tree.Formed) {scope : ScopeId}
    {special : Special} {base : Cache} {loaded : Loaded}
    (h : analysis.loadSpecial? scope special = some loaded) :
    analysis.Fetched scope base loaded := by
  unfold loadSpecial? at h
  obtain ⟨name, hlocal, rfl⟩ := Option.map_eq_some_iff.mp h
  have hmeaning : analysis.tree.meaning? scope special.name = some (some name) :=
    Option.join_eq_some_iff.mp hlocal
  refine ⟨(ScopeTree.mem_allNames hformed).mpr (.entry hmeaning), ?_, rfl, rfl, .inl (by simp)⟩
  exact Kinds.subset_iff.mpr fun kind hkind => (Kinds.mem_inter.mp hkind).1

/-- What it takes to enter a scope. -/
structure Enters (analysis : Analysis) (scope : ScopeId) (current : Option Cache)
    (entrance : Entrance) (base : Cache) (loads : List Loaded) : Prop where
  passedOn : analysis.PassedOn scope current base
  fetched : ∀ loaded ∈ loads, analysis.Fetched scope base loaded
  others : ∀ name ∈ analysis.tree.allNames scope, (∃ loaded ∈ loads, loaded.name = name) ∨
    analysis.needsLoad base name = false
  settles : Settles loads ⟨loads, [], [], base⟩ entrance

/-- Entering a scope, step by step. -/
theorem run_enter? (scope : ScopeId) (specials : List Special) (current : Option Cache) :
    analysis.enter? scope specials current =
      if (!(analysis.passOn scope current).2.isEmpty) = true then
        .error (.narrowing (analysis.passOn scope current).2)
      else
        let written := specials.filterMap (analysis.loadSpecial? scope)
        let base := (analysis.passOn scope current).1
        (analysis.tree.allNames scope).filterMapM (analysis.fetch? written base) >>= fun fetched =>
          (written ++ fetched).foldlM analysis.settleLoad ⟨written ++ fetched, [], [], base⟩ := by
  unfold enter?
  dsimp only
  split
  · rfl
  · rfl

/-- The steps of an entrance that succeeds. -/
theorem exists_fetched_of_enter? {scope : ScopeId} {specials : List Special}
    {current : Option Cache} {entrance : Entrance}
    (h : analysis.enter? scope specials current = .ok entrance) :
    (analysis.passOn scope current).2 = [] ∧
      ∃ fetched,
        (analysis.tree.allNames scope).filterMapM
            (analysis.fetch? (specials.filterMap (analysis.loadSpecial? scope))
              (analysis.passOn scope current).1) = .ok fetched ∧
        (specials.filterMap (analysis.loadSpecial? scope) ++ fetched).foldlM analysis.settleLoad
            ⟨specials.filterMap (analysis.loadSpecial? scope) ++ fetched, [], [],
              (analysis.passOn scope current).1⟩ = .ok entrance := by
  rw [run_enter?] at h
  split at h
  · cases h
  · next hviolations =>
    refine ⟨by simpa using hviolations, ?_⟩
    dsimp only at h
    cases hfetched : (analysis.tree.allNames scope).filterMapM
        (analysis.fetch? (specials.filterMap (analysis.loadSpecial? scope))
          (analysis.passOn scope current).1) with
    | error refusal =>
        rw [hfetched] at h
        cases h
    | ok fetched =>
        rw [hfetched] at h
        exact ⟨fetched, rfl, h⟩

theorem enters_of_enter? (hformed : analysis.tree.Formed) {scope : ScopeId}
    {specials : List Special} {current : Option Cache} {entrance : Entrance}
    (h : analysis.enter? scope specials current = .ok entrance) :
    ∃ base loads, analysis.Enters scope current entrance base loads := by
  obtain ⟨hpassed, fetched, hfetched, hsettled⟩ := exists_fetched_of_enter? h
  obtain ⟨hfound, hall⟩ := mem_of_filterMapM hfetched
  refine ⟨_, _, passedOn_passOn hpassed, fun loaded hloaded => ?_, fun name hname => ?_,
    settles_of_foldlM hsettled⟩
  · rcases List.mem_append.mp hloaded with hmem | hmem
    · obtain ⟨special, -, hspecial⟩ := List.mem_filterMap.mp hmem
      exact fetched_of_loadSpecial? hformed hspecial
    · obtain ⟨name, hname, hstep⟩ := hfound loaded hmem
      exact (fetched_of_fetch? hname hstep).1
  · rcases hall name hname with hnone | ⟨loaded, hmem, hstep⟩
    · unfold fetch? at hnone
      split at hnone
      · next hcondition =>
        rcases Bool.or_eq_true_iff.mp hcondition with hmem | hneeds
        · obtain ⟨loaded, hloaded, heq⟩ := List.mem_map.mp (of_decide_eq_true hmem)
          exact .inl ⟨loaded, List.mem_append_left _ hloaded, heq⟩
        · exact .inr (by simpa using hneeds)
      · cases hload : analysis.load (analysis.passOn scope current).1 name with
        | error refusal =>
            rw [hload] at hnone
            cases hnone
        | ok loaded =>
            rw [hload] at hnone
            cases hnone
    · exact .inl ⟨loaded, List.mem_append_right _ hmem, (fetched_of_fetch? hname hstep).2⟩

/-- In every branch of a scope a name that is fetched is bound to what one of its loads yields,
and every other name is bound as it was before. -/
theorem Enters.find? {scope : ScopeId} {current : Option Cache} {entrance : Entrance}
    {base cache : Cache} {loads : List Loaded}
    (h : analysis.Enters scope current entrance base loads) (hcache : cache ∈ entrance.caches)
    (name : NameId) :
    (cache.find? name = base.find? name ∧ ∀ loaded ∈ loads, loaded.name ≠ name) ∨
      ∃ loaded ∈ loads, loaded.name = name ∧
        ∃ value, loaded.Yields value ∧ cache.find? name = some value := by
  have hdispatched : ∀ loaded ∈ entrance.dispatch, loaded ∈ loads ∧ loaded.direct = false := by
    intro loaded hloaded
    rcases h.settles.dispatch loaded hloaded with hbefore | hmem
    · cases hbefore
    · exact hmem
  rcases Entrance.find?_of_mem_branches hcache name with
    ⟨hfind, hother⟩ | ⟨loaded, hmem, hname, kind, hkind, hfind⟩
  · by_cases hloads : ∃ loaded ∈ loads, loaded.name = name
    · obtain ⟨loaded, hmem, rfl⟩ := hloads
      rcases h.settles.settled loaded hmem with hdispatch | ⟨other, hmem', hname, value, hyields,
        hvalue⟩
      · exact absurd rfl (hother loaded hdispatch)
      · exact .inr ⟨other, hmem', hname, value, hyields, hfind.trans hvalue⟩
    · rcases h.settles.base name with hsame | ⟨loaded, hmem, hname, -⟩
      · exact .inl ⟨hfind.trans hsame, fun loaded hmem hname => hloads ⟨loaded, hmem, hname⟩⟩
      · exact absurd ⟨loaded, hmem, hname⟩ hloads
  · obtain ⟨hmem', hdirect⟩ := hdispatched loaded hmem
    exact .inr ⟨loaded, hmem', hname, _, .unboxed hdirect hkind, hfind⟩

end Analysis

end FrameLang
