import FrameLang.Proofs.Analysis.Coverage
import FrameLang.Proofs.Scope.Bearers
import FrameLang.Proofs.Scope.Invariance

/-!
# Arithmetic operations

What is known of an arithmetic operation is kept twice: with its node, and with the
scope that it is evaluated in.  The two agree except while the operation is weighed
(`Evaluation.Balanced`), that is, from when its operands have been evaluated until
its evaluation comes to its end (`Evaluation.weighing`).
-/

namespace FrameLang

/-! ## Arithmetic operations -/

namespace ScopeTree

/-- The kinds that may result from an arithmetic operation, as far as a scope knows. -/
def weighed (tree : ScopeTree) (scope : ScopeId) (node : NodeId) : Kinds :=
  (((tree.scope scope).intrinsics.find? node).map Intrinsic.kinds).getD .any

variable {tree : ScopeTree}

theorem weighed_setIntrinsic {scope : ScopeId} (hscope : scope.index < tree.scopes.size)
    (node : NodeId) (entry : Intrinsic) (other : ScopeId) (here : NodeId) :
    (tree.setIntrinsic scope node entry).weighed other here =
      if scope = other ∧ node = here then entry.kinds else tree.weighed other here := by
  unfold weighed setIntrinsic
  by_cases heq : scope = other
  · subst heq
    rw [scope_modifyScope_self hscope, Table.find?_insert]
    by_cases hnode : node = here <;> simp [hnode]
  · rw [scope_modifyScope_of_ne _ heq, if_neg fun h => heq h.1]

theorem find?_setIntrinsic {scope : ScopeId} (hscope : scope.index < tree.scopes.size)
    (node : NodeId) (entry : Intrinsic) :
    ((tree.setIntrinsic scope node entry).scope scope).intrinsics.find? node = some entry := by
  unfold setIntrinsic
  rw [scope_modifyScope_self hscope, Table.find?_insert, if_pos rfl]

end ScopeTree

namespace ScopeM

variable {σ : Type}

/-- What a demand on the result of an arithmetic operation does. -/
structure Weighs (scope : ScopeId) (node : NodeId) (demanded : Kinds) (before : Session σ)
    (found : Kinds × Session σ) : Prop where
  weighed : ∀ other here, found.2.tree.weighed other here =
    if scope = other ∧ node = here then found.1 else before.tree.weighed other here
  subset : found.1 ⊆ before.tree.weighed scope node
  entry : (((found.2.tree.scope scope).intrinsics.find? node)).isSome
  nonempty : before.tree.weighed scope node ≠ ∅ →
    ((before.tree.scope scope).intrinsics.find? node).isSome ∨ demanded ≠ ∅ → found.1 ≠ ∅
  names : found.2.tree.names = before.tree.names
  scopes : found.2.tree.scopes.size = before.tree.scopes.size
  defs : found.2.defs = before.defs
  reporter : before.reporter.Grows found.2.reporter
  met : before.reporter.Counts → found.2.reporter.report.totalErrors = 0 → found.1 ⊆ demanded
  still : before.tree.weighed scope node ⊆ demanded → before.tree.weighed scope node ≠ ∅ →
    found.1 = before.tree.weighed scope node ∧ found.2.reporter = before.reporter

theorem weighs_ensureIntrinsic {scope : ScopeId} (node : NodeId) (demanded : Kinds) (unbox : Bool)
    (span : Span) {session : Session σ} (hscope : scope.index < session.tree.scopes.size) :
    Weighs scope node demanded session
      ((ensureIntrinsic scope node demanded unbox span).run session) := by
  have hweighed := fun entry => session.tree.weighed_setIntrinsic hscope node entry
  have hfind := fun entry => session.tree.find?_setIntrinsic hscope node entry
  -- an entry that is there has what is known, and a new one has what is demanded
  have hentry : ∀ entry, ((session.tree.scope scope).intrinsics.find? node).getD
      ⟨demanded, unbox⟩ = entry → entry.kinds ⊆ session.tree.weighed scope node ∧
        (((session.tree.scope scope).intrinsics.find? node).isSome →
          entry.kinds = session.tree.weighed scope node) ∧
        (((session.tree.scope scope).intrinsics.find? node).isSome = false →
          entry.kinds = demanded) := by
    rintro entry rfl
    unfold ScopeTree.weighed
    cases (session.tree.scope scope).intrinsics.find? node with
    | none => exact ⟨Kinds.subset_iff.mpr (by simp), by simp, fun _ => rfl⟩
    | some entry => exact ⟨Kinds.subset_refl _, fun _ => rfl, by simp⟩
  rw [run_ensureIntrinsic]
  generalize ((session.tree.scope scope).intrinsics.find? node).getD ⟨demanded, unbox⟩ = entry
    at hentry
  obtain ⟨hsubset, hold, hnew⟩ := hentry entry rfl
  have hwithin : session.tree.weighed scope node ⊆ demanded →
      entry.kinds = session.tree.weighed scope node := by
    intro hwithin
    cases hsome : ((session.tree.scope scope).intrinsics.find? node).isSome with
    | true => exact hold hsome
    | false => exact Kinds.subset_antisymm hsubset (hnew hsome ▸ hwithin)
  dsimp only
  split
  · next hmeets =>
    refine ⟨fun other here => hweighed _ other here,
      Kinds.subset_trans (Kinds.subset_iff.mpr fun _ h => (Kinds.mem_inter.mp h).1) hsubset,
      Option.isSome_iff_exists.mpr ⟨_, hfind _⟩, fun _ _ => ?_, rfl,
      ScopeTree.size_scopes_modifyScope .., rfl, .refl _,
      fun _ _ => Kinds.inter_subset_right .., fun hdemanded _ => ?_⟩
    · obtain ⟨kind, hkind, hdemanded⟩ := Kinds.meets_iff.mp hmeets
      exact Kinds.ne_empty_iff.mpr ⟨kind, Kinds.mem_inter.mpr ⟨hkind, hdemanded⟩⟩
    · rw [hwithin hdemanded]
      exact ⟨Kinds.inter_eq_self hdemanded, rfl⟩
  · next hnot =>
    refine ⟨fun other here => hweighed _ other here, hsubset,
      Option.isSome_iff_exists.mpr ⟨_, hfind _⟩, fun hne hor => ?_, rfl,
      ScopeTree.size_scopes_modifyScope .., rfl, Reporter.grows_push ..,
      fun hcounts hclean => ?_, fun hdemanded hne => ?_⟩
    · cases hsome : ((session.tree.scope scope).intrinsics.find? node).isSome with
      | true =>
          rw [hold hsome]
          exact hne
      | false =>
          rw [hnew hsome]
          exact hor.resolve_left (by simp [hsome])
    · exact absurd hclean (Reporter.totalErrors_push_ne_zero hcounts _)
    · have hkinds := hwithin hdemanded
      rw [← hkinds] at hdemanded hne
      exact absurd (Kinds.meets_of_subset hdemanded hne) hnot

end ScopeM

namespace Evaluation

open ScopeM

/-! ## Weighing -/

section Weighing

variable {layout : Layout} {session before after : Session Progress}

/-- What is known of an arithmetic operation is the same with its node and with its scope. -/
structure Balanced (layout : Layout) (session : Session Progress) : Prop where
  placed : ∀ id placement, layout.nodes.find? id = some placement →
    placement.expr.id = id ∧ placement.scope.index < session.tree.scopes.size
  weighed : ∀ id placement left right, layout.nodes.find? id = some placement →
    placement.expr.way = .arithmetic left right →
      session.tree.weighed placement.scope id = session.defs.kindsOf id
  inhabited : ∀ node, session.defs.kindsOf node ≠ ∅

/-- What becomes of the session of an arithmetic operation once its operands are evaluated. -/
def weighing (scope : ScopeId) (node : NodeId) (natural demanded : Kinds) (unbox : Bool)
    (span : Span) (session : Session Progress) : Kinds × Session Progress :=
  (ensureIntrinsic scope node demanded unbox span).run
    ((ensureIntrinsic scope node natural true span).run session).2

/-- What comes of weighing an arithmetic operation and leaving it. -/
structure Weighed (layout : Layout) (node : NodeId) (natural demanded : Kinds)
    (before : Session Progress) (found : Kinds × Session Progress) : Prop where
  balanced : Balanced layout (leaving found.2 node found.1)
  names : found.2.tree.names = before.tree.names
  resolved : found.2.defs.resolved = before.defs.resolved
  kindsOf : ∀ other, (leaving found.2 node found.1).defs.kindsOf other =
    if node = other then found.1 else before.defs.kindsOf other
  met : before.reporter.Counts → found.2.reporter.report.totalErrors = 0 →
    found.1 ⊆ natural ∧ found.1 ⊆ demanded
  still : before.defs.kindsOf node ⊆ natural → before.defs.kindsOf node ⊆ demanded →
    found.1 = before.defs.kindsOf node ∧ found.2.reporter = before.reporter

theorem weighed_weighing (h : Balanced layout session) {expr : Expr} {scope : ScopeId}
    {left right : NodeId} (hplaced : layout.nodes.find? expr.id = some ⟨expr, scope⟩)
    (hway : expr.way = .arithmetic left right) {natural : Kinds} (hnatural : natural ≠ ∅)
    (demanded : Kinds) (unbox : Bool) (span : Span) :
    Weighed layout expr.id natural demanded session
      (weighing scope expr.id natural demanded unbox span session) := by
  have hscope := (h.placed _ _ hplaced).2
  have hold := h.weighed _ _ left right hplaced hway
  have hfirst := weighs_ensureIntrinsic expr.id natural true span hscope
  unfold weighing
  generalize (ensureIntrinsic scope expr.id natural true span).run session = first at hfirst
  have hsecond := weighs_ensureIntrinsic expr.id demanded unbox span (hfirst.scopes ▸ hscope)
  generalize (ensureIntrinsic scope expr.id demanded unbox span).run first.2 = second at hsecond
  have hweighed : first.2.tree.weighed scope expr.id = first.1 :=
    (hfirst.weighed scope expr.id).trans (if_pos ⟨rfl, rfl⟩)
  have hdefs : second.2.defs = session.defs := hsecond.defs.trans hfirst.defs
  -- neither demand empties the entry, so each of them narrows it
  have hne : second.1 ≠ ∅ := by
    refine hsecond.nonempty ?_ (.inl hfirst.entry)
    rw [hweighed]
    refine hfirst.nonempty ?_ (.inr hnatural)
    rw [hold]
    exact h.inhabited expr.id
  have hsubset : second.1 ⊆ session.defs.kindsOf expr.id := by
    rw [← hold]
    exact Kinds.subset_trans hsecond.subset (hweighed ▸ hfirst.subset)
  have hkinds : ∀ other, (leaving second.2 expr.id second.1).defs.kindsOf other =
      if expr.id = other then second.1 else session.defs.kindsOf other := by
    intro other
    have hprove : (leaving second.2 expr.id second.1).defs.kindsOf other =
        if expr.id = other then (second.2.defs.kindsOf expr.id).narrow second.1
        else second.2.defs.kindsOf other := Progress.kindsOf_prove ..
    rw [hprove, hdefs]
    split
    · exact Kinds.narrow_of_subset hsubset hne
    · rfl
  have hlast : ∀ other here, (leaving second.2 expr.id second.1).tree.weighed other here =
      second.2.tree.weighed other here := fun _ _ => rfl
  -- once the node is left, what is proven of it is its entry again
  refine ⟨⟨fun id placement hid => ?_, fun id placement left' right' hid harithmetic => ?_,
    fun node => ?_⟩, hsecond.names.trans hfirst.names, by rw [hdefs], hkinds,
    fun hcounts hclean => ?_, fun hwithin hwithin' => ?_⟩
  · obtain ⟨hexpr, hplace⟩ := h.placed id placement hid
    refine ⟨hexpr, ?_⟩
    change placement.scope.index < second.2.tree.scopes.size
    rw [hsecond.scopes, hfirst.scopes]
    exact hplace
  · rw [hkinds, hlast]
    by_cases heq : expr.id = id
    · subst heq
      obtain rfl := Option.some.inj (hplaced.symm.trans hid)
      rw [hsecond.weighed, if_pos ⟨rfl, rfl⟩, if_pos rfl]
    · rw [hsecond.weighed, if_neg fun hboth => heq hboth.2, hfirst.weighed,
        if_neg fun hboth => heq hboth.2, if_neg heq]
      exact h.weighed id placement left' right' hid harithmetic
  · rw [hkinds]
    split
    · exact hne
    · exact h.inhabited node
  · have hfirstClean : first.2.reporter.report.totalErrors = 0 :=
      hsecond.reporter.clean hclean
    refine ⟨?_, hsecond.met (hfirst.reporter.counts hcounts) hclean⟩
    exact Kinds.subset_trans (hweighed ▸ hsecond.subset) (hfirst.met hcounts hfirstClean)
  · rw [← hold] at hwithin hwithin'
    have hinhabited : session.tree.weighed scope expr.id ≠ ∅ := hold ▸ h.inhabited expr.id
    obtain ⟨hkept, hreporter⟩ := hfirst.still hwithin hinhabited
    rw [← hkept, ← hweighed] at hwithin' hinhabited
    obtain ⟨hkept', hreporter'⟩ := hsecond.still hwithin' hinhabited
    exact ⟨(hkept'.trans hweighed).trans (hkept.trans hold), hreporter'.trans hreporter⟩

theorem arithmeticKinds_ne_empty (left right : Kinds) : arithmeticKinds left right ≠ ∅ := by
  have hnumber : Kinds.number ≠ ∅ := by decide
  unfold arithmeticKinds
  dsimp only
  generalize (if .int ∈ left ∧ .int ∈ right then ({.int} : Kinds) else ∅) ∪
    (if .float ∈ left ∪ right then ({.float} : Kinds) else ∅) = natural
  split
  · exact hnumber
  · next hne => simpa using hne

/-- An arithmetic operation is weighed once its operands are evaluated. -/
theorem run_rule_arithmetic (again during : Definer Progress) (searching : List NodeId)
    {expr : Expr} {left right : NodeId} (hway : expr.way = .arithmetic left right)
    (scope : ScopeId) (demanded : Kinds) (unbox : Bool) (session : Session Progress) :
    (rule again during searching scope demanded unbox expr).run session =
      let left := (again left .number true).run session
      let right := (again right .number true).run left.2
      weighing scope expr.id (arithmeticKinds left.1 right.1) demanded unbox expr.span right.2 := by
  rw [run_rule, hway]
  rfl

end Weighing

/-! ## Balance -/

section Balance

variable {layout : Layout} {session before after : Session Progress}

theorem balanced_of_eq (h : Balanced layout before)
    (hscopes : after.tree.scopes.size = before.tree.scopes.size)
    (hintrinsics : ∀ scope,
      (after.tree.scope scope).intrinsics = (before.tree.scope scope).intrinsics)
    (hkinds : ∀ node, after.defs.kindsOf node = before.defs.kindsOf node) :
    Balanced layout after := by
  refine ⟨?_, fun id placement left right hid hway => ?_, fun node => ?_⟩
  · rw [hscopes]
    exact h.placed
  · rw [ScopeTree.weighed, hintrinsics, hkinds]
    exact h.weighed id placement left right hid hway
  · rw [hkinds]
    exact h.inhabited node

theorem balanced_indifferent (layout : Layout) : Session.Indifferent (Balanced layout) :=
  fun _ _ hdefs hscopes hintrinsics _ h =>
    balanced_of_eq h hscopes hintrinsics fun node => by rw [hdefs]

theorem Balanced.noting (h : Balanced layout session) (event : Event) :
    Balanced layout (session.noting event) :=
  balanced_of_eq h rfl (fun _ => rfl) fun _ => rfl

/-- The evaluation of a node that is not an arithmetic operation has come to its end. -/
theorem Balanced.leaving (h : Balanced layout session) {expr : Expr} {scope : ScopeId}
    (hplaced : layout.nodes.find? expr.id = some ⟨expr, scope⟩)
    (hway : ∀ left right, expr.way ≠ .arithmetic left right) (proven : Kinds) :
    Balanced layout (leaving session expr.id proven) := by
  have hprove : ∀ other, (Evaluation.leaving session expr.id proven).defs.kindsOf other =
      if expr.id = other then (session.defs.kindsOf expr.id).narrow proven
      else session.defs.kindsOf other := fun other => Progress.kindsOf_prove ..
  refine ⟨h.placed, fun id placement left right hid harithmetic => ?_, fun node => ?_⟩
  · have hne : ¬ expr.id = id := by
      rintro rfl
      obtain rfl := Option.some.inj (hplaced.symm.trans hid)
      exact hway left right harithmetic
    rw [hprove, if_neg hne]
    exact h.weighed id placement left right hid harithmetic
  · rw [hprove]
    split
    · exact (Kinds.narrows_narrow _ _).nonempty (h.inhabited expr.id)
    · exact h.inhabited node

theorem leaf_maintains (h : Balanced layout session) (span : Span) (natural demanded : Kinds) :
    Balanced layout ((leaf span natural demanded).run session).2 := by
  rw [run_leaf]
  split
  · exact h
  · exact reporting_maintains (balanced_indifferent layout) h _

theorem resolve_maintains {during : Definer Progress}
    (hduring : during.Maintains (Balanced layout)) (searching : List NodeId) (scope : ScopeId)
    (mark : Mark) (path : List String) (h : Balanced layout session) :
    Balanced layout ((resolve during searching scope mark path).run session).2 := by
  rw [run_resolve]
  cases session.defs.resolved.find? mark.id with
  | some name => exact h
  | none =>
      dsimp only
      split
      · exact h
      · have hfound := lookup_maintains (balanced_indifferent layout) hduring scope path mark.span
          (h.noting (.searching mark.id))
        exact balanced_of_eq hfound rfl (fun _ => rfl) fun _ => rfl

theorem rule_maintains {again during : Definer Progress}
    (hagain : again.Maintains (Balanced layout)) (hduring : during.Maintains (Balanced layout))
    (searching : List NodeId) (h : Balanced layout session) {expr : Expr} {scope : ScopeId}
    (hplaced : layout.nodes.find? expr.id = some ⟨expr, scope⟩) (demanded : Kinds) (unbox : Bool) :
    Balanced layout
      (leaving ((rule again during searching scope demanded unbox expr).run session).2 expr.id
        ((rule again during searching scope demanded unbox expr).run session).1) := by
  have hindifferent := balanced_indifferent layout
  -- only arithmetic operations have not been balanced before they are left
  have hleave : (∀ left right, expr.way ≠ .arithmetic left right) →
      Balanced layout ((rule again during searching scope demanded unbox expr).run session).2 →
        Balanced layout
          (leaving ((rule again during searching scope demanded unbox expr).run session).2 expr.id
            ((rule again during searching scope demanded unbox expr).run session).1) :=
    fun hother hbalanced => hbalanced.leaving hplaced hother _
  cases hway : expr.way with
  | leaf natural =>
      refine hleave (by simp [hway]) ?_
      simp only [run_rule, hway]
      exact leaf_maintains h expr.span natural demanded
  | lookup path =>
      refine hleave (by simp [hway]) ?_
      simp only [run_rule, hway]
      have hfound := resolve_maintains hduring searching scope expr.mark path h
      cases ((resolve during searching scope expr.mark path).run session).1 with
      | some name => exact ensure_maintains hindifferent hagain name demanded unbox hfound
      | none => exact hfound
  | coalesce primary fallback =>
      refine hleave (by simp [hway]) ?_
      simp only [run_rule, hway]
      have hfallback := hagain fallback demanded unbox session h
      have hprimary := hagain primary (demanded ∪ {.unit}) unbox _ hfallback
      exact hprimary
  | choose consequent alternative =>
      refine hleave (by simp [hway]) ?_
      simp only [run_rule, hway]
      have hconsequent := hagain consequent demanded unbox session h
      have halternative := hagain alternative demanded unbox _ hconsequent
      exact halternative
  | arithmetic left right =>
      rw [run_rule_arithmetic again during searching hway]
      have hleft := hagain left .number true session h
      have hright := hagain right .number true _ hleft
      dsimp only
      exact (weighed_weighing hright hplaced hway (arithmeticKinds_ne_empty _ _) demanded unbox
        expr.span).balanced
  | enforce value kinds =>
      refine hleave (by simp [hway]) ?_
      simp only [run_rule, hway]
      have hvalue := hagain value kinds true session h
      exact leaf_maintains hvalue expr.span kinds demanded
  | body node =>
      refine hleave (by simp [hway]) ?_
      simp only [run_rule, hway]
      exact hagain node demanded unbox session h

/-- Whatever is evaluated, operations are balanced whenever they are not under evaluation. -/
theorem evaluate_maintains (layout : Layout) (depth : Nat) (active searching : List NodeId) :
    (evaluate layout depth active searching).Maintains (Balanced layout) := by
  induction depth generalizing active searching with
  | zero => exact fun _ _ _ _ h => h
  | succ depth ih =>
      intro id demanded unbox session h
      rw [run_evaluate_succ]
      cases hplaced : layout.nodes.find? id with
      | none => exact h
      | some placement =>
          obtain ⟨rfl, -⟩ := h.placed id placement hplaced
          dsimp only
          split
          · exact h.noting _
          · have hentered := h.noting (.entered placement.expr.id demanded)
            exact rule_maintains (ih (placement.expr.id :: active) searching)
              (ih (placement.expr.id :: active) (placement.expr.id :: searching)) searching hentered
              hplaced demanded unbox

theorem classifyAll_maintains (h : Balanced layout session) :
    Balanced layout ((classifyAll layout).run session).2 := by
  refine forM_preserves (Balanced layout) layout.lookups (fun id _ session h => ?_) h
  unfold classify
  split
  · rw [run_bind, run_pure]
    exact resolve_maintains (evaluate_maintains layout _ _ _) [] _ _ _ h
  · exact h

theorem start_balanced (unit : Expr) (file : String) (topLevel : Bool) :
    Balanced (Survey.ofUnit unit file topLevel).defs (start (Survey.ofUnit unit file topLevel)) := by
  have hkept := Survey.kept_ofUnit unit file topLevel
  have hany : Kinds.any ≠ ∅ := by decide
  refine ⟨fun id placement hid => ?_, fun id placement _ _ _ _ => ?_, fun _ => hany⟩
  · obtain ⟨-, hexpr, hscope, -⟩ := Survey.found_ofUnit hid
    exact ⟨hexpr, hscope⟩
  · have hnone := hkept.unweighed placement.scope
    unfold ScopeTree.weighed start
    dsimp only
    rw [hnone]
    rfl

theorem classified_balanced (unit : Expr) (file : String) (topLevel : Bool) :
    Balanced (Survey.ofUnit unit file topLevel).defs
      (classified (Survey.ofUnit unit file topLevel)) :=
  classifyAll_maintains (start_balanced unit file topLevel)

end Balance

end Evaluation

end FrameLang
