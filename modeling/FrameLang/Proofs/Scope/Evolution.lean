import FrameLang.Proofs.Scope.Formed
import Mathlib.Order.Basic

/-!
# How a session evolves

Whatever the definitions do by means of demands and lookups, a session evolves in
one direction only: its tree stays well formed and grows, what has been reported
stays reported, and the trace gets longer (`Session.Evolves`).  This file shows
it for demands, given that it holds for the definitions.

What comes of a demand is also told as a relation (`ScopeM.Follows`), with a case
for each way in which a name answers, so that facts about demands are shown by
induction on the way that the demand takes.

The state of the definitions is ordered, and it evolves as well.
-/

namespace FrameLang

/-- Every finding has been counted once, and the first of them have been kept. -/
structure Reporter.Counts (reporter : Reporter) : Prop where
  total : reporter.report.totalErrors = reporter.seen.length
  nodup : reporter.seen.Nodup
  kept : reporter.report.errors.map Diagnostic.finding = reporter.seen.reverse.take Report.capacity

/-- More has been reported. -/
structure Reporter.Grows (before after : Reporter) : Prop where
  errors : before.report.totalErrors ≤ after.report.totalErrors
  seen : before.seen ⊆ after.seen
  counts : before.Counts → after.Counts

/-- A finding about what a lookup means, and not about kinds. -/
def Finding.Scopal (finding : Finding) : Prop :=
  finding.code = .forbiddenName ∨ finding.code = .emptyLookup

/-- The codes of complaints about scopes and lookups, and not about kinds. -/
def Code.scoping : List Code := [.forbiddenName, .duplicateAttribute, .emptyLookup]

/-- What has been reported of scopes and lookups, in the order in which it was found, whether the
report has had room for it or not. -/
def Reporter.scoping (reporter : Reporter) : List Finding :=
  reporter.seen.reverse.filter fun finding => finding.code ∈ Code.scoping

/-- A session comes after another one. -/
structure Session.Evolves {σ : Type} [Preorder σ] (before after : Session σ) : Prop where
  formed : after.tree.Formed
  grows : before.tree.Grows after.tree
  reporter : before.reporter.Grows after.reporter
  trace : before.trace <:+ after.trace
  later : before.defs ≤ after.defs

/-- A definer that lets sessions evolve. -/
def Definer.Sound {σ : Type} [Preorder σ] (definer : Definer σ) : Prop :=
  ∀ node demanded unbox (session : Session σ), session.tree.Formed →
    session.Evolves ((definer node demanded unbox).run session).2

/-! ## Reports -/

namespace Reporter

theorem Grows.refl (reporter : Reporter) : reporter.Grows reporter :=
  ⟨Nat.le_refl _, fun _ h => h, fun h => h⟩

theorem Grows.trans {first second third : Reporter} (h : first.Grows second)
    (h' : second.Grows third) : first.Grows third :=
  ⟨Nat.le_trans h.errors h'.errors, List.Subset.trans h.seen h'.seen,
    fun hcounts => h'.counts (h.counts hcounts)⟩

theorem counts_new (file : String) : (new file).Counts := ⟨rfl, List.nodup_nil, rfl⟩

/-- A finding that has not been seen is kept while there is room for it. -/
theorem Counts.kept_push {reporter : Reporter} (h : reporter.Counts) (error : Diagnostic) :
    (reporter.report.addError error).errors.map Diagnostic.finding =
      (error.finding :: reporter.seen).reverse.take Report.capacity := by
  have hlength : reporter.report.errors.length = min Report.capacity reporter.seen.length := by
    have hmapped := congrArg List.length h.kept
    rwa [List.length_map, List.length_take, List.length_reverse] at hmapped
  unfold Report.addError
  rw [List.reverse_cons]
  split
  · next hroom =>
    have hfew : reporter.seen.length < Report.capacity := by omega
    rw [List.map_append, h.kept, List.take_of_length_le, List.take_of_length_le]
    · rfl
    · rw [List.length_append, List.length_reverse]
      exact hfew
    · rw [List.length_reverse]
      exact Nat.le_of_lt hfew
  · next hfull =>
    rw [h.kept, List.take_append_of_le_length]
    rw [List.length_reverse]
    omega

theorem grows_push (reporter : Reporter) (error : Diagnostic) :
    reporter.Grows (reporter.push error) := by
  unfold push
  split
  · exact .refl _
  · next hnew =>
    refine ⟨Nat.le_succ _, List.subset_cons_self _ _, fun hcounts => ⟨?_, ?_, ?_⟩⟩
    · simp [Report.addError, hcounts.total]
    · exact List.nodup_cons.mpr ⟨hnew, hcounts.nodup⟩
    · exact hcounts.kept_push error

theorem mem_seen_push {reporter : Reporter} {error : Diagnostic} {finding : Finding} :
    finding ∈ (reporter.push error).seen ↔ finding = error.finding ∨ finding ∈ reporter.seen := by
  unfold push
  split
  · next hseen =>
    constructor
    · exact .inr
    · rintro (rfl | hmem)
      · exact hseen
      · exact hmem
  · exact List.mem_cons

/-- Complaints about kinds leave those about scopes and lookups as they are. -/
theorem scoping_push_of_not_mem {reporter : Reporter} {error : Diagnostic}
    (hcode : error.code ∉ Code.scoping) : (reporter.push error).scoping = reporter.scoping := by
  unfold push
  split
  · rfl
  · rw [scoping, List.reverse_cons, List.filter_append, List.filter_cons_of_neg]
    · exact List.append_nil _
    · exact fun hmem => hcode (of_decide_eq_true hmem)

@[simp] theorem scoping_nameConflict (reporter : Reporter) (span : Span) (name : String)
    (known demanded : Kinds) :
    (reporter.nameConflict span name known demanded).scoping = reporter.scoping :=
  scoping_push_of_not_mem (show Code.conflictingName ∉ Code.scoping by decide)

@[simp] theorem scoping_maskConflict (reporter : Reporter) (span : Span) (name : String)
    (known mask : Kinds) :
    (reporter.maskConflict span name known mask).scoping = reporter.scoping :=
  scoping_push_of_not_mem (show Code.conflictingName ∉ Code.scoping by decide)

@[simp] theorem scoping_expressionConflict (reporter : Reporter) (span : Span)
    (known demanded : Kinds) :
    (reporter.expressionConflict span known demanded).scoping = reporter.scoping :=
  scoping_push_of_not_mem (show Code.conflictingExpression ∉ Code.scoping by decide)

/-- Whether a complaint about scopes and lookups repeats an earlier one can be told from complaints
of this sort alone. -/
theorem scoping_push_of_mem {reporter : Reporter} {error : Diagnostic}
    (hcode : error.code ∈ Code.scoping) :
    (reporter.push error).scoping =
      if error.finding ∈ reporter.scoping then reporter.scoping
      else reporter.scoping ++ [error.finding] := by
  have hmem : error.finding ∈ reporter.scoping ↔ error.finding ∈ reporter.seen := by
    rw [scoping, List.mem_filter, List.mem_reverse]
    exact and_iff_left (decide_eq_true hcode)
  unfold push
  simp only [hmem]
  split
  · rfl
  · rw [scoping, List.reverse_cons, List.filter_append, List.filter_cons_of_pos]
    · rfl
    · exact decide_eq_true hcode

theorem scoping_push_congr {first second : Reporter} (h : second.scoping = first.scoping)
    {error error' : Diagnostic} (hfinding : error'.finding = error.finding) :
    (second.push error').scoping = (first.push error).scoping := by
  have hcode : error'.code = error.code := congrArg Finding.code hfinding
  by_cases hscoping : error.code ∈ Code.scoping
  · rw [scoping_push_of_mem hscoping, scoping_push_of_mem (hcode ▸ hscoping), h, hfinding]
  · rw [scoping_push_of_not_mem hscoping, scoping_push_of_not_mem (hcode ▸ hscoping), h]

/-- Whatever is reported is an error, reported now or before. -/
theorem totalErrors_push_pos {reporter : Reporter} (h : reporter.Counts) (error : Diagnostic) :
    0 < (reporter.push error).report.totalErrors := by
  unfold push
  split
  · next hseen =>
    rw [h.total]
    exact List.length_pos_of_mem hseen
  · exact Nat.succ_pos _

theorem totalErrors_push_ne_zero {reporter : Reporter} (h : reporter.Counts)
    (error : Diagnostic) : (reporter.push error).report.totalErrors ≠ 0 :=
  Nat.ne_of_gt (totalErrors_push_pos h error)

/-- If nothing has been reported in the end, nothing had been before. -/
theorem Grows.clean {before after : Reporter} (h : before.Grows after)
    (hclean : after.report.totalErrors = 0) : before.report.totalErrors = 0 :=
  Nat.le_zero.mp (hclean ▸ h.errors)

end Reporter

/-! ## Steps -/

namespace Session

variable {σ : Type}

/-- The session with another tree. -/
def withTree (session : Session σ) (tree : ScopeTree) : Session σ :=
  { session with tree := tree }

@[simp] theorem tree_withTree (session : Session σ) (tree : ScopeTree) :
    (session.withTree tree).tree = tree := rfl

/-- The session with another state of the definitions. -/
def withDefs (session : Session σ) (defs : σ) : Session σ :=
  { session with defs := defs }

/-- The session once an event has been noted. -/
def noting (session : Session σ) (event : Event) : Session σ :=
  { session with trace := event :: session.trace }

/-- The session once a demand has been made on the record of a name. -/
def demanding (session : Session σ) (id : NameId) (demanded : Kinds) (unbox : Bool) : Session σ :=
  session.withTree (session.tree.modifyName id (·.afterDemand demanded unbox))

/-- The session once a definition has proven something to the record of a name. -/
def proving (session : Session σ) (id : NameId) (proven : Kinds) : Session σ :=
  session.withTree (session.tree.modifyName id (·.afterProof proven))

/-- The session once something has been reported. -/
def reporting (session : Session σ) (reporter : Reporter) : Session σ :=
  { session with reporter := reporter }

section Records

variable (session : Session σ) (id other : NameId)

theorem origin_demanding (demanded : Kinds) (unbox : Bool) :
    ((session.demanding id demanded unbox).tree.name other).origin =
      if id = other then (session.tree.name other).origin.narrow demanded
      else (session.tree.name other).origin := by
  split
  · next heq =>
    subst heq
    rw [demanding, tree_withTree, ScopeTree.name_modifyName_self _ _ rfl,
      NameRecord.origin_afterDemand]
  · next hne => exact congrArg NameRecord.origin (ScopeTree.name_modifyName_of_ne _ hne _)

theorem origin_proving (proven : Kinds) :
    ((session.proving id proven).tree.name other).origin =
      if id = other then (session.tree.name other).origin.settle proven
      else (session.tree.name other).origin := by
  split
  · next heq =>
    subst heq
    rw [proving, tree_withTree, ScopeTree.name_modifyName_self _ _ rfl]
    rfl
  · next hne => exact congrArg NameRecord.origin (ScopeTree.name_modifyName_of_ne _ hne _)

variable {session} in
theorem formed_demanding (h : session.tree.Formed) (demanded : Kinds) (unbox : Bool) :
    (session.demanding id demanded unbox).tree.Formed :=
  h.modifyName (NameRecord.grows_afterDemand ..) (NameRecord.children_afterDemand ..)

end Records

namespace Evolves

variable [Preorder σ] {session first second third : Session σ}

theorem refl (h : session.tree.Formed) : session.Evolves session :=
  ⟨h, .refl _, .refl _, List.suffix_refl _, le_refl _⟩

theorem trans (h : first.Evolves second) (h' : second.Evolves third) : first.Evolves third :=
  ⟨h'.formed, h.grows.trans h'.grows, h.reporter.trans h'.reporter, h.trace.trans h'.trace,
    le_trans h.later h'.later⟩

theorem tree {tree : ScopeTree} (hformed : tree.Formed) (hgrows : session.tree.Grows tree) :
    session.Evolves (session.withTree tree) :=
  ⟨hformed, hgrows, .refl _, List.suffix_refl _, le_refl _⟩

theorem defs {defs : σ} (h : session.tree.Formed) (hdefs : session.defs ≤ defs) :
    session.Evolves (session.withDefs defs) :=
  ⟨h, .refl _, .refl _, List.suffix_refl _, hdefs⟩

theorem noting (h : session.tree.Formed) (event : Event) :
    session.Evolves (session.noting event) :=
  ⟨h, .refl _, .refl _, List.suffix_cons _ _, le_refl _⟩

theorem reporting (h : session.tree.Formed) {reporter : Reporter}
    (hreporter : session.reporter.Grows reporter) :
    session.Evolves (session.reporting reporter) :=
  ⟨h, .refl _, hreporter, List.suffix_refl _, le_refl _⟩

theorem demanding (h : session.tree.Formed) (id : NameId) (demanded : Kinds) (unbox : Bool) :
    session.Evolves (session.demanding id demanded unbox) :=
  .tree (formed_demanding id h demanded unbox) (ScopeTree.grows_modifyName
    (NameRecord.grows_afterDemand ..))

theorem proving (h : session.tree.Formed) (id : NameId) (proven : Kinds) :
    session.Evolves (session.proving id proven) := by
  have hgrows := (session.tree.name id).grows_afterProof proven
  exact .tree (h.modifyName hgrows rfl) (ScopeTree.grows_modifyName hgrows)

end Evolves

end Session

namespace ScopeM

variable {σ : Type}

/-! ## Demands -/

theorem run_follow (definer : Definer σ) (id : NameId) (demanded : Kinds) (unbox : Bool)
    (session : Session σ) :
    (follow definer id demanded unbox).run session =
      match (session.tree.name id).origin.answer demanded with
      | .settled proven => (proven, session.demanding id demanded unbox)
      | .refused known =>
          (known, (session.demanding id demanded unbox).reporting
            (session.reporter.nameConflict (session.tree.spanOfName id)
              (session.tree.name id).path known demanded))
      | .passOn source =>
          if source.index < id.index then
            (follow definer source demanded unbox).run (session.demanding id demanded unbox)
          else (.any, session.demanding id demanded unbox)
      | .define node =>
          let defined := (definer node demanded unbox).run
            ((session.demanding id demanded unbox).noting (.defining node demanded unbox))
          (defined.1, defined.2.proving id defined.1) := by
  rw [follow]
  simp only [run_bind, run_tree, run_modifyTree]
  cases (session.tree.name id).origin.answer demanded with
  | settled proven => rfl
  | refused known => rfl
  | passOn source => dsimp only; split <;> rfl
  | define node => rfl

/-- What comes of a demand, told from name to name as delegation leads to earlier names. -/
inductive Follows (definer : Definer σ) (demanded : Kinds) (unbox : Bool) :
    NameId → Session σ → Kinds × Session σ → Prop where
  /-- What is known agrees with the demand. -/
  | settled (id : NameId) {session : Session σ} {proven : Kinds}
      (hanswer : (session.tree.name id).origin.answer demanded = .settled proven) :
      Follows definer demanded unbox id session (proven, session.demanding id demanded unbox)
  /-- What is known has nothing in common with the demand. -/
  | refused (id : NameId) {session : Session σ} {known : Kinds}
      (hanswer : (session.tree.name id).origin.answer demanded = .refused known) :
      Follows definer demanded unbox id session
        (known, (session.demanding id demanded unbox).reporting
          (session.reporter.nameConflict (session.tree.spanOfName id)
            (session.tree.name id).path known demanded))
  /-- The demand is handed on to the name outside. -/
  | delegated (id source : NameId) {session : Session σ} {followed : Kinds × Session σ}
      (horigin : (session.tree.name id).origin = .delegated source)
      (hrest : Follows definer demanded unbox source (session.demanding id demanded unbox)
        followed) :
      Follows definer demanded unbox id session followed
  /-- The demand is made of the definition, and its answer is what is proven of the name. -/
  | bound (id : NameId) (node : NodeId) {session : Session σ} {kinds : Kinds}
      {defined : Kinds × Session σ} (horigin : (session.tree.name id).origin = .bound node kinds)
      (hdefined : (definer node demanded unbox).run
        ((session.demanding id demanded unbox).noting (.defining node demanded unbox)) = defined) :
      Follows definer demanded unbox id session (defined.1, defined.2.proving id defined.1)

theorem follows_follow (definer : Definer σ) (id : NameId) (demanded : Kinds) (unbox : Bool)
    {session : Session σ} (h : session.tree.Formed) :
    Follows definer demanded unbox id session ((follow definer id demanded unbox).run session) := by
  induction id using NameId.strongInduction generalizing session with
  | step id ih =>
      rw [run_follow]
      cases hanswer : (session.tree.name id).origin.answer demanded with
      | settled proven => exact .settled id hanswer
      | refused known => exact .refused id hanswer
      | passOn source =>
          have horigin := Origin.eq_delegated_of_answer hanswer
          have hlt := (h.source id source (by rw [horigin]; rfl)).1
          dsimp only
          rw [if_pos hlt]
          exact .delegated id source horigin
            (ih source hlt (Session.formed_demanding id h demanded unbox))
      | define node =>
          obtain ⟨kinds, horigin⟩ := Origin.eq_bound_of_answer hanswer
          exact .bound id node horigin rfl

theorem run_ensure (definer : Definer σ) (id : NameId) (demanded : Kinds) (unbox : Bool)
    (session : Session σ) :
    (ensure definer id demanded unbox).run session =
      let followed := (follow definer id demanded unbox).run
        (session.noting (.asked id demanded unbox))
      (followed.1, followed.2.noting (.answered id followed.1)) := rfl

theorem run_ensureIntrinsic (scope : ScopeId) (node : NodeId) (demanded : Kinds) (unbox : Bool)
    (span : Span) (session : Session σ) :
    (ensureIntrinsic scope node demanded unbox span).run session =
      let entry := ((session.tree.scope scope).intrinsics.find? node).getD ⟨demanded, unbox⟩
      if entry.kinds.meets demanded = true then
        (entry.kinds ∩ demanded, session.withTree (session.tree.setIntrinsic scope node
          ⟨entry.kinds ∩ demanded, entry.mustUnbox && unbox⟩))
      else
        (entry.kinds, (session.withTree (session.tree.setIntrinsic scope node entry)).reporting
          (session.reporter.expressionConflict span entry.kinds demanded)) := by
  unfold ensureIntrinsic
  rw [run_bind, run_tree]
  dsimp only
  split
  · rfl
  · rfl

theorem trace_ensureIntrinsic (scope : ScopeId) (node : NodeId) (demanded : Kinds) (unbox : Bool)
    (span : Span) (session : Session σ) :
    ((ensureIntrinsic scope node demanded unbox span).run session).2.trace = session.trace := by
  rw [run_ensureIntrinsic]
  dsimp only
  split <;> rfl

theorem ensureIntrinsic_evolves [Preorder σ] (scope : ScopeId) (node : NodeId) (demanded : Kinds)
    (unbox : Bool) (span : Span) {session : Session σ} (h : session.tree.Formed) :
    session.Evolves ((ensureIntrinsic scope node demanded unbox span).run session).2 := by
  -- an entry that is there already is the one that is narrowed
  have hentry : ∀ old, (session.tree.scope scope).intrinsics.find? node = some old →
      ((session.tree.scope scope).intrinsics.find? node).getD ⟨demanded, unbox⟩ = old := by
    intro old hold
    rw [hold]
    rfl
  rw [run_ensureIntrinsic]
  dsimp only
  split
  · have hkinds : ∀ old, (session.tree.scope scope).intrinsics.find? node = some old →
        (((session.tree.scope scope).intrinsics.find? node).getD ⟨demanded, unbox⟩).kinds ∩ demanded ⊆
          old.kinds := by
      intro old hold
      rw [hentry old hold, Kinds.subset_iff]
      exact fun kind hkind => (Kinds.mem_inter.mp hkind).1
    exact .tree (h.setIntrinsic hkinds) (ScopeTree.grows_setIntrinsic hkinds)
  · have hkinds : ∀ old, (session.tree.scope scope).intrinsics.find? node = some old →
        (((session.tree.scope scope).intrinsics.find? node).getD ⟨demanded, unbox⟩).kinds ⊆
          old.kinds := by
      intro old hold
      rw [hentry old hold, Kinds.subset_iff]
      exact fun _ hkind => hkind
    have hput : session.Evolves (session.withTree (session.tree.setIntrinsic scope node
        (((session.tree.scope scope).intrinsics.find? node).getD ⟨demanded, unbox⟩))) :=
      .tree (h.setIntrinsic hkinds) (ScopeTree.grows_setIntrinsic hkinds)
    exact hput.trans (.reporting hput.formed (Reporter.grows_push ..))

section Sound

variable [Preorder σ] {definer : Definer σ} (hdefiner : definer.Sound)
include hdefiner

theorem Follows.evolves {id : NameId} {demanded : Kinds} {unbox : Bool} {session : Session σ}
    {followed : Kinds × Session σ}
    (hfollows : Follows definer demanded unbox id session followed) (h : session.tree.Formed) :
    session.Evolves followed.2 := by
  induction hfollows with
  | settled id _ => exact .demanding h id demanded unbox
  | refused id _ =>
      have hdemanded := Session.Evolves.demanding h id demanded unbox
      exact hdemanded.trans (.reporting hdemanded.formed (Reporter.grows_push ..))
  | delegated id source _ _ ih =>
      have hdemanded := Session.Evolves.demanding h id demanded unbox
      exact hdemanded.trans (ih hdemanded.formed)
  | bound id node _ hdefined =>
      have hdemanded := Session.Evolves.demanding h id demanded unbox
      have hnoted := hdemanded.trans (.noting hdemanded.formed (.defining node demanded unbox))
      have hproven := hnoted.trans (hdefined ▸ hdefiner node demanded unbox _ hnoted.formed)
      exact hproven.trans (.proving hproven.formed id _)

theorem follow_evolves (id : NameId) (demanded : Kinds) (unbox : Bool) {session : Session σ}
    (h : session.tree.Formed) :
    session.Evolves ((follow definer id demanded unbox).run session).2 :=
  (follows_follow definer id demanded unbox h).evolves hdefiner h

theorem ensure_evolves (id : NameId) (demanded : Kinds) (unbox : Bool) {session : Session σ}
    (h : session.tree.Formed) :
    session.Evolves ((ensure definer id demanded unbox).run session).2 := by
  have hasked := Session.Evolves.noting h (.asked id demanded unbox)
  have hfollowed := hasked.trans (follow_evolves hdefiner id demanded unbox hasked.formed)
  rw [run_ensure]
  exact hfollowed.trans (.noting hfollowed.formed _)

end Sound

end ScopeM

end FrameLang
