import FrameLang.Branch.Walk
import FrameLang.Proofs.Branch.Entrance
import FrameLang.Proofs.Scope.Paths
import Mathlib.Data.List.Forall2
import Mathlib.Data.List.Lex
import Mathlib.Algebra.BigOperators.Group.List.Basic

/-!
# The branches of a dispatch

A scope has one branch for each way to choose one kind of every name that is
dispatched over (`Entrance.choices`).  A choice is the list of the kinds chosen, in
the order of the names.  The choices are in lexicographic order
(`Entrance.pairwise_choices`), so none of them comes twice, and what is known in the
branch of a choice is what the choice says (`Entrance.binds_branches`).

## Strategy

A branch puts one layer on top of another, and a layer hides what the layers below say
about its name.  So a choice is not lost on the way up only because no name is
dispatched over twice (`Analysis.nodup_dispatch`): the names that a scope fetches are
names that it lists, each once, and the values that the scope writes itself belong to
different entries.
-/

namespace FrameLang

namespace Kind

/-- One kind comes before another one in canonical order. -/
def Before (first second : Kind) : Prop := first.position < second.position

end Kind

namespace Kinds

theorem pairwise_toList (kinds : Kinds) : kinds.toList.Pairwise Kind.Before := by
  have hall : Kind.all.Pairwise Kind.Before := by
    unfold Kind.Before
    decide
  exact hall.filter _

theorem size_pos {kinds : Kinds} (h : kinds ≠ ∅) : 0 < kinds.size := by
  obtain ⟨kind, hkind⟩ := ne_empty_iff.mp h
  exact List.length_pos_of_mem (mem_toList.mpr hkind)

end Kinds

namespace Entrance

variable {dispatch : List Loaded}

/-! ## Choices -/

/-- The ways to choose one kind of each name, the first name changing slowest. -/
def choices : List Loaded → List (List Kind)
  | [] => [[]]
  | loaded :: rest =>
      loaded.possible.toList.flatMap fun kind => (choices rest).map fun choice => kind :: choice

/-- A cache has what a choice says: every name is bound to its value, unboxed to the kind that
has been chosen. -/
def Binds (dispatch : List Loaded) (choice : List Kind) (cache : Cache) : Prop :=
  List.Forall₂ (fun kind loaded =>
    cache.find? loaded.name = some (.unboxed loaded.value {kind})) choice dispatch

/-- The number of branches. -/
def degree (dispatch : List Loaded) : Nat := (dispatch.map fun loaded => loaded.possible.size).prod

theorem mem_choices {choice : List Kind} :
    choice ∈ choices dispatch ↔
      List.Forall₂ (fun kind (loaded : Loaded) => kind ∈ loaded.possible) choice dispatch := by
  induction dispatch generalizing choice with
  | nil => rw [choices, List.mem_singleton, List.forall₂_nil_right_iff]
  | cons loaded rest ih =>
      simp only [choices, List.mem_flatMap, List.mem_map, Kinds.mem_toList,
        List.forall₂_cons_right_iff, ih]
      constructor
      · rintro ⟨kind, hkind, others, hothers, rfl⟩
        exact ⟨kind, others, hkind, hothers, rfl⟩
      · rintro ⟨kind, others, hkind, hothers, rfl⟩
        exact ⟨kind, hkind, others, hothers, rfl⟩

/-- The choices come in lexicographic order. -/
theorem pairwise_choices (dispatch : List Loaded) :
    (choices dispatch).Pairwise (List.Lex Kind.Before) := by
  induction dispatch with
  | nil => exact List.pairwise_singleton _ _
  | cons loaded rest ih =>
      rw [choices, List.pairwise_flatMap]
      constructor
      · intro kind _
        rw [List.pairwise_map]
        exact ih.imp fun h => List.Lex.cons h
      · refine (Kinds.pairwise_toList loaded.possible).imp fun {kind kind'} hbefore => ?_
        intro choice hchoice choice' hchoice'
        obtain ⟨others, -, rfl⟩ := List.mem_map.mp hchoice
        obtain ⟨others', -, rfl⟩ := List.mem_map.mp hchoice'
        exact List.Lex.rel hbefore

theorem length_branches (cache : Cache) (dispatch : List Loaded) :
    (branches cache dispatch).length = degree dispatch := by
  induction dispatch generalizing cache with
  | nil => rfl
  | cons loaded rest ih =>
      have hsame : ∀ kinds : List Kind, (kinds.flatMap fun kind =>
          branches (loaded.branch cache kind) rest).length = kinds.length * degree rest := by
        intro kinds
        induction kinds with
        | nil => rw [List.flatMap_nil, List.length_nil, List.length_nil, Nat.zero_mul]
        | cons kind kinds ih' =>
            rw [List.flatMap_cons, List.length_append, ih, ih', List.length_cons, Nat.succ_mul,
              Nat.add_comm]
      calc (branches cache (loaded :: rest)).length
          = loaded.possible.toList.length * degree rest := hsame _
        _ = degree (loaded :: rest) := by rw [degree, degree, List.map_cons, List.prod_cons]; rfl

/-- The branches are those of the choices, one after the other, and leave all other names as they
are. -/
theorem forall₂_branches (hnodup : (dispatch.map Loaded.name).Nodup) (cache : Cache) :
    List.Forall₂ (fun choice branch => Binds dispatch choice branch ∧
        ∀ name, name ∉ dispatch.map Loaded.name → branch.find? name = cache.find? name)
      (choices dispatch) (branches cache dispatch) := by
  induction dispatch generalizing cache with
  | nil => exact .cons ⟨.nil, fun _ _ => rfl⟩ .nil
  | cons loaded rest ih =>
      obtain ⟨hnotmem, hrest⟩ := List.nodup_cons.mp hnodup
      rw [choices, branches]
      induction loaded.possible.toList with
      | nil => exact .nil
      | cons kind kinds ih' =>
          rw [List.flatMap_cons, List.flatMap_cons]
          refine List.rel_append ?_ ih'
          rw [List.forall₂_map_left_iff]
          refine (ih hrest _).imp fun choice branch h => ⟨.cons ?_ h.1, fun name hname => ?_⟩
          · -- what the branch puts on top does not hide the first name
            rw [h.2 loaded.name hnotmem, Loaded.find?_branch, if_pos rfl]
          · rw [List.map_cons, List.mem_cons, not_or] at hname
            rw [h.2 name hname.2, Loaded.find?_branch, if_neg (Ne.symm hname.1)]

theorem binds_branches (hnodup : (dispatch.map Loaded.name).Nodup) (cache : Cache) :
    List.Forall₂ (Binds dispatch) (choices dispatch) (branches cache dispatch) :=
  (forall₂_branches hnodup cache).imp fun _ _ h => h.1

end Entrance

namespace Analysis

variable {analysis : Analysis}

/-! ## Distinct names -/

/-- The names that are dispatched over are some of those that are fetched, and have several
kinds. -/
theorem dispatch_of_foldlM {loads : List Loaded} {before after : Entrance}
    (h : loads.foldlM analysis.settleLoad before = .ok after) :
    ∃ dispatched : List Loaded, dispatched.Sublist loads ∧
      after.dispatch = before.dispatch ++ dispatched ∧
        ∀ loaded ∈ dispatched, loaded.possible ≠ ∅ := by
  induction loads generalizing before with
  | nil =>
      cases h
      exact ⟨[], List.Sublist.refl [], (List.append_nil _).symm, by simp⟩
  | cons loaded rest ih =>
      rw [List.foldlM_cons] at h
      cases hfirst : analysis.settleLoad before loaded with
      | error refusal =>
          rw [hfirst] at h
          cases h
      | ok middle =>
          rw [hfirst] at h
          obtain ⟨dispatched, hsublist, hdispatch, hpossible⟩ := ih h
          have hkinds : loaded.possible ≠ ∅ := by
            intro hempty
            rw [settleLoad, if_pos (Kinds.isEmpty_iff.mpr hempty)] at hfirst
            cases hfirst
          rcases settleLoad_ok hfirst with ⟨-, -, -, hsame⟩ | ⟨-, -, hmore⟩
          · exact ⟨dispatched, hsublist.cons loaded, hsame ▸ hdispatch, hpossible⟩
          · refine ⟨loaded :: dispatched, hsublist.cons_cons loaded, ?_, ?_⟩
            · rw [hdispatch, hmore, List.append_assoc, List.singleton_append]
            · exact List.forall_mem_cons.mpr ⟨hkinds, hpossible⟩

/-- What comes of items, some of which are left out, is in the order of the items. -/
theorem map_sublist_of_filterMapM {α β ε : Type} {step : α → Except ε (Option β)} {back : β → α}
    {items : List α} {found : List β} (h : items.filterMapM step = .ok found)
    (hback : ∀ item result, step item = .ok (some result) → back result = item) :
    (found.map back).Sublist items := by
  obtain ⟨result, hsteps, rfl⟩ := exists_result_of_filterMapM h
  have hsame : ∀ item ∈ items, (result item).map back =
      Option.guard (fun item => (result item).isSome) item := by
    intro item hitem
    cases hresult : result item with
    | none => simp [Option.guard, hresult]
    | some other =>
        have hother := hback item other (hresult ▸ hsteps item hitem)
        simp [Option.guard, hresult, hother]
  rw [List.map_filterMap, List.filterMap_congr hsame, List.filterMap_eq_filter]
  exact List.filter_sublist

/-- The values that a scope writes itself are those of different names. -/
theorem nodup_written (hrecorded : analysis.tree.Recorded) (scope : ScopeId)
    {specials : List Special} (h : (specials.map Special.name).Nodup) :
    ((specials.filterMap (analysis.loadSpecial? scope)).map Loaded.name).Nodup := by
  have hentry : ∀ special loaded, analysis.loadSpecial? scope special = some loaded →
      analysis.tree.at? (.entry scope special.name) = some (some loaded.name) := by
    intro special loaded hloaded
    unfold loadSpecial? at hloaded
    obtain ⟨name, hlocal, rfl⟩ := Option.map_eq_some_iff.mp hloaded
    exact Option.join_eq_some_iff.mp hlocal
  rw [List.Nodup, List.pairwise_map] at h ⊢
  rw [List.pairwise_filterMap]
  refine h.imp fun hne loaded hloaded loaded' hloaded' heq => hne ?_
  have hplaces := hrecorded.unique _ _ loaded.name (hentry _ _ hloaded)
    (heq ▸ hentry _ _ hloaded')
  exact (Place.entry.inj hplaces).2

theorem name_of_fetch? {written : List Loaded} {base : Cache} {name : NameId} {loaded : Loaded}
    (h : analysis.fetch? written base name = .ok (some loaded)) :
    loaded.name = name ∧ name ∉ written.map Loaded.name := by
  unfold fetch? at h
  split at h
  · cases h
  · next hcondition =>
    simp only [Bool.or_eq_true, Bool.not_eq_true', not_or, decide_eq_true_eq] at hcondition
    refine ⟨?_, hcondition.1⟩
    unfold load at h
    cases horigin : (analysis.tree.name name).origin <;> simp only [horigin] at h <;> cases h <;> rfl

/-- No name is dispatched over twice, and each that is has some kind. -/
theorem nodup_dispatch (hformed : analysis.tree.Formed) (hrecorded : analysis.tree.Recorded)
    {scope : ScopeId} {specials : List Special} (hspecials : (specials.map Special.name).Nodup)
    {current : Option Cache} {entrance : Entrance}
    (h : analysis.enter? scope specials current = .ok entrance) :
    (entrance.dispatch.map Loaded.name).Nodup ∧
      ∀ loaded ∈ entrance.dispatch, loaded.possible ≠ ∅ := by
  obtain ⟨-, fetched, hfetched, hsettled⟩ := exists_fetched_of_enter? h
  obtain ⟨hfound, -⟩ := mem_of_filterMapM hfetched
  have hnames : (fetched.map Loaded.name).Nodup :=
    (ScopeTree.nodup_allNames hformed hrecorded scope).sublist
      (map_sublist_of_filterMapM hfetched fun _ _ hstep => (name_of_fetch? hstep).1)
  have hapart : ∀ name ∈ (specials.filterMap (analysis.loadSpecial? scope)).map Loaded.name,
      name ∉ fetched.map Loaded.name := by
    intro name hwritten hname
    obtain ⟨loaded, hmem, rfl⟩ := List.mem_map.mp hname
    obtain ⟨item, -, hstep⟩ := hfound loaded hmem
    obtain ⟨rfl, hnot⟩ := name_of_fetch? hstep
    exact hnot hwritten
  have hall : ((specials.filterMap (analysis.loadSpecial? scope) ++ fetched).map
      Loaded.name).Nodup := by
    rw [List.map_append]
    exact (nodup_written hrecorded scope hspecials).append hnames hapart
  obtain ⟨dispatched, hsublist, hdispatch, hpossible⟩ := dispatch_of_foldlM hsettled
  rw [List.nil_append] at hdispatch
  rw [hdispatch]
  exact ⟨hall.sublist (hsublist.map Loaded.name), hpossible⟩

end Analysis

end FrameLang
