import FrameLang.Proofs.Analysis.Requirements
import FrameLang.Proofs.Branch.Visits

/-!
# Why a scope cannot be entered

There are two reasons.  A value that the path has obtained is excluded by a mask of
the scope, or a name that is fetched has no kind left (`Analysis.refused_of_enter?`).
The third refusal, of a name that has never been classified, does not arise.

If nothing is wrong with a unit, every name can be of some kind.  Then a scope in
which nothing is written can always be entered from outside, and a scope can be
uninhabited only because of what is written in it
(`Walk.visit_refused_of_success`).

## Strategy

Fetching asks first whether a name has to be fetched, and junk never has to be, so
fetching itself does not fail.  What is left is one pass over the fetched names,
which fails at the first one without kinds.  The kinds of a name that is fetched are
all that are possible; only those of a value that the scope writes have been cut down
to what the writer has observed.
-/

namespace FrameLang

namespace Analysis

variable {analysis : Analysis}

/-! ## Fetching never fails -/

/-- If no step fails, there is a result. -/
theorem exists_filterMapM {α β ε : Type} {step : α → Except ε (Option β)} {items : List α}
    (h : ∀ item ∈ items, ∃ result, step item = .ok result) :
    ∃ found, items.filterMapM step = .ok found := by
  induction items with
  | nil => exact ⟨[], rfl⟩
  | cons item rest ih =>
      obtain ⟨first, hfirst⟩ := h item List.mem_cons_self
      obtain ⟨others, hothers⟩ := ih fun other hother => h other (List.mem_cons_of_mem _ hother)
      rw [List.filterMapM_cons, hfirst]
      cases first with
      | none => exact ⟨others, hothers⟩
      | some result =>
          refine ⟨result :: others, ?_⟩
          change (rest.filterMapM step >>= _) = _
          rw [hothers]
          rfl

/-- A name that has been classified is fetched with all the kinds that are possible for it. -/
theorem exists_load {name : NameId} (hlive : (analysis.tree.name name).origin ≠ .junk)
    (base : Cache) : ∃ value, analysis.load base name =
      .ok ⟨name, value, analysis.possible name, analysis.mustUnbox name⟩ := by
  unfold load
  cases horigin : (analysis.tree.name name).origin with
  | junk => exact absurd horigin hlive
  | _ =>
      simp only [horigin]
      exact ⟨_, rfl⟩

theorem not_junk_of_needsLoad {base : Cache} {name : NameId}
    (h : analysis.needsLoad base name = true) : (analysis.tree.name name).origin ≠ .junk := by
  intro horigin
  rw [needsLoad, horigin] at h
  cases h

/-- What fetching a name comes to: nothing, or the name with all its kinds. -/
theorem fetch?_cases (written : List Loaded) (base : Cache) (name : NameId) :
    analysis.fetch? written base name = .ok none ∨
      ∃ loaded, analysis.fetch? written base name = .ok (some loaded) ∧
        loaded.name = name ∧ loaded.possible = analysis.possible name := by
  unfold fetch?
  split
  · exact .inl rfl
  · next hcondition =>
    rw [Bool.or_eq_true, not_or, Bool.not_eq_true', Bool.not_eq_false] at hcondition
    obtain ⟨value, hload⟩ := exists_load (not_junk_of_needsLoad hcondition.2) base
    rw [hload]
    exact .inr ⟨_, rfl, rfl, rfl⟩

/-! ## Settling fails where no kind is left -/

theorem settleLoad_error {entrance : Entrance} {loaded : Loaded} {refusal : Refusal}
    (h : analysis.settleLoad entrance loaded = .error refusal) :
    loaded.possible = ∅ ∧ refusal = .uninhabited (analysis.tree.name loaded.name).path := by
  unfold settleLoad at h
  split at h
  · next hempty =>
    cases h
    exact ⟨Kinds.isEmpty_iff.mp hempty, rfl⟩
  · split at h
    · cases h
    · split at h
      · cases h
      · cases h

theorem foldlM_settleLoad_error {loads : List Loaded} {entrance : Entrance} {refusal : Refusal}
    (h : loads.foldlM analysis.settleLoad entrance = .error refusal) :
    ∃ loaded ∈ loads, loaded.possible = ∅ ∧
      refusal = .uninhabited (analysis.tree.name loaded.name).path := by
  induction loads generalizing entrance with
  | nil => cases h
  | cons loaded rest ih =>
      rw [List.foldlM_cons] at h
      cases hloaded : analysis.settleLoad entrance loaded with
      | error cause =>
          rw [hloaded] at h
          cases h
          exact ⟨loaded, List.mem_cons_self, settleLoad_error hloaded⟩
      | ok middle =>
          rw [hloaded] at h
          obtain ⟨other, hother, hrest⟩ := ih h
          exact ⟨other, List.mem_cons_of_mem _ hother, hrest⟩

/-! ## Refusals -/

/-- Why a scope is not entered on a path. -/
inductive Refused (analysis : Analysis) (scope : ScopeId) (specials : List Special)
    (current : Option Cache) : Refusal → Prop where
  /-- Masks of the scope exclude what the path has obtained. -/
  | narrowing (hviolations : (analysis.passOn scope current).2 ≠ []) :
      Refused analysis scope specials current (.narrowing (analysis.passOn scope current).2)
  /-- A name of the scope has no kind at all. -/
  | impossible {name : NameId} (hname : name ∈ analysis.tree.allNames scope)
      (hnone : analysis.possible name = ∅) :
      Refused analysis scope specials current (.uninhabited (analysis.tree.name name).path)
  /-- A value that the scope writes has been observed not to have any kind of its name. -/
  | unwritable {special : Special} {name : NameId} (hspecial : special ∈ specials)
      (hlocal : (analysis.tree.scope scope).local? special.name = some name)
      (hdisjoint : (analysis.possible name).meets special.observed = false) :
      Refused analysis scope specials current (.uninhabited (analysis.tree.name name).path)

theorem refused_of_enter? {scope : ScopeId} {specials : List Special} {current : Option Cache}
    {refusal : Refusal} (h : analysis.enter? scope specials current = .error refusal) :
    analysis.Refused scope specials current refusal := by
  have hwritten : ∀ loaded ∈ specials.filterMap (analysis.loadSpecial? scope),
      ∃ special ∈ specials, ∃ name,
        (analysis.tree.scope scope).local? special.name = some name ∧ loaded.name = name ∧
          loaded.possible = analysis.possible name ∩ special.observed := by
    intro loaded hmem
    obtain ⟨special, hspecial, hloaded⟩ := List.mem_filterMap.mp hmem
    obtain ⟨name, hlocal, rfl⟩ := Option.map_eq_some_iff.mp hloaded
    exact ⟨special, hspecial, name, hlocal, rfl, rfl⟩
  rw [run_enter?] at h
  split at h
  · next hviolations =>
    cases h
    exact .narrowing (by simpa using hviolations)
  · dsimp only at h
    generalize specials.filterMap (analysis.loadSpecial? scope) = written at h hwritten
    have hstep := analysis.fetch?_cases written (analysis.passOn scope current).1
    have hfetch : ∀ name ∈ analysis.tree.allNames scope, ∃ result,
        analysis.fetch? written (analysis.passOn scope current).1 name = .ok result :=
      fun name _ => (hstep name).elim (fun hnone => ⟨none, hnone⟩)
        fun ⟨loaded, hloaded, _⟩ => ⟨some loaded, hloaded⟩
    obtain ⟨fetched, hfetched⟩ := exists_filterMapM hfetch
    rw [hfetched] at h
    -- the load that is refused is one that is written or one that is fetched
    obtain ⟨loaded, hloaded, hnone, rfl⟩ := foldlM_settleLoad_error h
    rcases List.mem_append.mp hloaded with hmem | hmem
    · obtain ⟨special, hspecial, name, hlocal, rfl, hkinds⟩ := hwritten loaded hmem
      refine .unwritable hspecial hlocal ?_
      rw [Kinds.meets, Bool.not_eq_false', Kinds.isEmpty_iff, ← hkinds, hnone]
    · obtain ⟨name, hname, hfound⟩ := (mem_of_filterMapM hfetched).1 loaded hmem
      rcases hstep name with hnothing | ⟨other, hother, rfl, hkinds⟩
      · cases hnothing.symm.trans hfound
      · cases hother.symm.trans hfound
        exact .impossible hname (hkinds.symm.trans hnone)

theorem passOn_none (analysis : Analysis) (scope : ScopeId) :
    (analysis.passOn scope none).2 = [] := rfl

section Units

variable {unit : Expr} {file : String} {options : Options}

/-- If nothing is wrong with a unit, every name can be of some kind. -/
theorem possible_analyse_ne_empty (hsuccess : (analyse unit file options).success = true)
    (name : NameId) : (analyse unit file options).possible name ≠ ∅ :=
  ScopeTree.possible_ne_empty (formed_analyse unit file options) (masks_meet hsuccess)

/-- Every node of a unit is proven to be of some kind. -/
theorem exists_kindsOf?_analyse {node : Expr} (hnode : node ∈ unit.nodes) :
    ∃ kinds, (analyse unit file options).kindsOf? node.id = some kinds ∧ kinds ≠ ∅ := by
  have hplaced := (Survey.lays_ofUnit unit file options.topLevel).placed node hnode
  rw [← layout_analyse] at hplaced
  obtain ⟨placement, hplacement⟩ := Option.isSome_iff_exists.mp hplaced
  refine ⟨(analyse unit file options).progress.kindsOf node.id,
    by rw [kindsOf?, hplacement]; rfl, ?_⟩
  rw [progress_analyse]
  have hlater := (Evaluation.finished_explored unit file options.topLevel).2.evolves.later
  have hany : Kinds.any ≠ ∅ := by decide
  exact (hlater.kinds node.id).nonempty hany

end Units

end Analysis

/-! ## Whole units -/

namespace Walk

/-- Scopes of a unit that nothing is wrong with can be entered.

Every name of such a unit can be of some kind, and every node is proven to be of some kind.  A
scope in which nothing is written is entered from outside without fail, and on any other path it
is refused only if the path has obtained values that the scope excludes.  A scope in which values
are written can be refused for one more reason: one of them is written to a name that has
nothing in common with what has been observed of it.

Whatever is wrong with a unit, a scope is never refused because of a name that has not been
classified. -/
theorem visit_refused_of_success (unit : Expr) (file : String) (options : Options) {σ : Type} :
    ((analyse unit file options).success = true →
      (∀ name, (analyse unit file options).possible name ≠ ∅) ∧
      (∀ node ∈ unit.nodes, ∃ kinds,
        (analyse unit file options).kindsOf? node.id = some kinds ∧ kinds ≠ ∅) ∧
      (∀ scope (body : Cache → StateT Walk (StateM σ) Unit) state, ∃ visited,
        result (visit (analyse unit file options) scope [] none body) state = .ok visited) ∧
      (∀ scope current (body : Cache → StateT Walk (StateM σ) Unit) state refusal,
        result (visit (analyse unit file options) scope [] current body) state = .error refusal →
          ∃ violations, violations ≠ [] ∧ refusal = .narrowing violations) ∧
      (∀ scope specials current (body : Cache → StateT Walk (StateM σ) Unit) state refusal,
        result (visit (analyse unit file options) scope specials current body) state =
            .error refusal →
          (∃ violations, violations ≠ [] ∧ refusal = .narrowing violations) ∨
            (∃ path, refusal = .uninhabited path) ∧ ∃ special ∈ specials, ∃ name,
              ((analyse unit file options).tree.scope scope).local? special.name = some name ∧
                ((analyse unit file options).possible name).meets special.observed = false)) ∧
    (∀ scope specials current (body : Cache → StateT Walk (StateM σ) Unit) state path,
      result (visit (analyse unit file options) scope specials current body) state ≠
        .error (.invalidName path)) := by
  simp only [result_visit_error_iff, ne_eq]
  refine ⟨fun hsuccess => ?_, fun scope specials current _ _ path hrefused => ?_⟩
  · have hpossible := Analysis.possible_analyse_ne_empty hsuccess
    have hrefused : ∀ scope specials current refusal,
        (analyse unit file options).enter? scope specials current = .error refusal →
          (∃ violations, violations ≠ [] ∧ refusal = .narrowing violations) ∨
            (∃ path, refusal = .uninhabited path) ∧ ∃ special ∈ specials, ∃ name,
              ((analyse unit file options).tree.scope scope).local? special.name = some name ∧
                ((analyse unit file options).possible name).meets special.observed = false := by
      intro scope specials current refusal henter
      cases Analysis.refused_of_enter? henter with
      | narrowing hviolations => exact .inl ⟨_, hviolations, rfl⟩
      | @impossible name hname hnone => exact absurd hnone (hpossible name)
      | @unwritable special name hspecial hlocal hdisjoint =>
          exact .inr ⟨⟨_, rfl⟩, special, hspecial, name, hlocal, hdisjoint⟩
    refine ⟨hpossible, fun node hnode => Analysis.exists_kindsOf?_analyse hnode,
      fun scope _ _ => ?_, fun scope current _ _ refusal henter => ?_,
      fun scope specials current _ _ => hrefused scope specials current⟩
    · cases henter : (analyse unit file options).enter? scope [] none with
      | ok entrance =>
          exact ⟨⟨entrance, entrance.caches.length⟩, result_visit_ok_iff.mpr ⟨henter, rfl⟩⟩
      | error refusal =>
          cases Analysis.refused_of_enter? henter with
          | narrowing hviolations => exact absurd (Analysis.passOn_none _ scope) hviolations
          | @impossible name hname hnone => exact absurd hnone (hpossible name)
          | unwritable hspecial => cases hspecial
    · exact (hrefused scope [] current refusal henter).resolve_right
        fun ⟨_, special, hspecial, _⟩ => by cases hspecial
  · cases Analysis.refused_of_enter? hrefused

/-- A frame in which a name is looked up that has to be an integer. -/
def counted : Expr :=
  let mark (id : Nat) : Mark := ⟨⟨id⟩, .nowhere⟩
  .frame (mark 2) [.of "n" (.enforce (mark 1) (.lookup (mark 0) ["x"]) {.int})]

/-- The scope of the frame can be entered, but not if text is written to the name. -/
theorem visit_refused_of_success_counted :
    (analyse counted "counted" .default).success = true ∧
      (∃ visited, result (visit (analyse counted "counted" .default) ⟨1⟩ [] none
        fun _ => (pure () : StateT Walk (StateM Unit) Unit)) (start, ()) = .ok visited) ∧
      result (visit (analyse counted "counted" .default) ⟨1⟩ [⟨"x", {.str}⟩] none
        fun _ => (pure () : StateT Walk (StateM Unit) Unit)) (start, ()) =
          .error (.uninhabited "x") ∧
      ∃ special ∈ [(⟨"x", {.str}⟩ : Special)], ∃ name,
        ((analyse counted "counted" .default).tree.scope ⟨1⟩).local? special.name = some name ∧
          ((analyse counted "counted" .default).possible name).meets special.observed = false := by
  have hsuccess : (analyse counted "counted" .default).success = true := by decide +kernel
  have hrefused : ((analyse counted "counted" .default).enter? ⟨1⟩ [⟨"x", {.str}⟩] none).map
      (fun _ => ()) = .error (.uninhabited "x") := by
    decide +kernel
  have hresult : result (visit (analyse counted "counted" .default) ⟨1⟩ [⟨"x", {.str}⟩] none
      fun _ => (pure () : StateT Walk (StateM Unit) Unit)) (start, ()) =
        .error (.uninhabited "x") := by
    rw [result_visit_error_iff]
    cases henter : (analyse counted "counted" .default).enter? ⟨1⟩ [⟨"x", {.str}⟩] none with
    | ok entrance =>
        rw [henter] at hrefused
        cases hrefused
    | error refusal =>
        rw [henter] at hrefused
        cases hrefused
        rfl
  obtain ⟨-, -, henters, -, hreasons⟩ :=
    (@visit_refused_of_success counted "counted" .default Unit).1 hsuccess
  refine ⟨hsuccess, henters ⟨1⟩ _ _, hresult, ?_⟩
  rcases hreasons ⟨1⟩ _ none _ _ _ hresult with ⟨violations, -, hnarrowing⟩ | ⟨-, hspecial⟩
  · cases hnarrowing
  · exact hspecial

end Walk

end FrameLang
