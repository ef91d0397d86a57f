import FrameLang.Proofs.Analysis.Ledger
import FrameLang.Proofs.Analysis.Requirements
import FrameLang.Proofs.Scope.Suppliers
import Mathlib.Data.List.Perm.Basic

/-!
# Demands in another order

The demands of a unit are made in the order of their priorities, and those of one priority in
the order in which they were queued.  If the queue is rearranged, the same demands are made on
the same names, since they do not depend on what is known.  What follows from them is the same
as well, as far as no definition and no arithmetic operation has a part in it
(`Analysis.outcome_of_queue_perm`): which names are needed unboxed, what every name can be that
does not get its value from a definition, and whether anything is wrong.

A name that is bound to a definition is different.  It takes over what the definition proves
when it is evaluated, and nothing brings the definition back when something that it
depends on is narrowed later.  So the order matters (`Analysis.not_order_irrelevant`).
-/

namespace FrameLang

/-! ## The same dues in another order -/

namespace Evaluation

open ScopeM

namespace Accounts

variable {dues other : List Due} {before first second : Session Progress}

theorem narrows (h : Accounts dues before first) {id : NameId}
    (hid : (before.tree.name id).origin.definition? = none) :
    (before.tree.name id).origin.Narrows (first.tree.name id).origin := by
  rw [h.unbound id hid]
  exact ((before.tree.name id).grows_afterDemands _).origin

/-- A name stays what it is, whether it is bound to a definition or not. -/
theorem kept (h : Accounts dues before first) (id : NameId) :
    (before.tree.name id).origin.Narrows (first.tree.name id).origin ∨
      ∃ node kinds kinds', (before.tree.name id).origin = .bound node kinds ∧
        (first.tree.name id).origin = .bound node kinds' := by
  cases hid : (before.tree.name id).origin.definition? with
  | none => exact .inl (h.narrows hid)
  | some node =>
      obtain ⟨kinds, hbefore⟩ := Origin.definition?_eq_some_iff.mp hid
      obtain ⟨kinds', hfirst⟩ := Origin.definition?_eq_some_iff.mp ((h.definition? id).trans hid)
      exact .inr ⟨node, kinds, kinds', hbefore, hfirst⟩

theorem source? (h : Accounts dues before first) (id : NameId) :
    (first.tree.name id).origin.source? = (before.tree.name id).origin.source? := by
  rcases h.kept id with hnarrows | ⟨node, kinds, kinds', hbefore, hfirst⟩
  · exact hnarrows.source?
  · rw [hbefore, hfirst]
    rfl

theorem delegated_iff (h : Accounts dues before first) (id source : NameId) :
    (first.tree.name id).origin = .delegated source ↔
      (before.tree.name id).origin = .delegated source := by
  rcases h.kept id with hnarrows | ⟨node, kinds, kinds', hbefore, hfirst⟩
  · exact hnarrows.delegated_iff
  · simp [hbefore, hfirst]

theorem isJunk (h : Accounts dues before first) (id : NameId) :
    first.tree.isJunk id = before.tree.isJunk id := by
  unfold ScopeTree.isJunk NameRecord.isJunk
  rcases h.kept id with hnarrows | ⟨node, kinds, kinds', hbefore, hfirst⟩
  · exact decide_eq_decide.mpr hnarrows.junk_iff
  · simp [hbefore, hfirst]

theorem exists_mask_iff (h : Accounts dues before first) (id source : NameId) :
    (∃ mask, (first.tree.name id).origin = .masked source mask) ↔
      ∃ mask, (before.tree.name id).origin = .masked source mask := by
  rcases h.kept id with hnarrows | ⟨node, kinds, kinds', hbefore, hfirst⟩
  · exact hnarrows.exists_mask_iff
  · simp [hbefore, hfirst]

theorem supplier? (h : Accounts dues before first) (id : NameId) :
    first.tree.supplier? id = before.tree.supplier? id := by
  induction id using NameId.strongInduction with
  | step id ih =>
      rw [ScopeTree.supplier?, ScopeTree.supplier?, h.source? id, h.definition? id]
      cases hsource : (before.tree.name id).origin.source? with
      | none => rfl
      | some source =>
          by_cases hlt : source.index < id.index
          · simp only [hlt, dite_true]
            exact ih source hlt
          · simp only [hlt, dite_false]

theorem mustUnbox_record (h : Accounts dues before first) (id : NameId) :
    (first.tree.name id).mustUnbox = ((before.tree.name id).mustUnbox ||
      (!(before.tree.name id).isJunk && (duesOn dues id).any Prod.snd)) := by
  cases hid : (before.tree.name id).origin.definition? with
  | none => rw [h.unbound id hid, NameRecord.mustUnbox_afterDemands]
  | some node =>
      rw [(h.bound id node hid).2, NameRecord.isJunk_of_definition? hid]
      simp

/-- Whether a value is needed unboxed does not depend on the order. -/
theorem mustUnbox_perm (h : Accounts dues before first) (h' : Accounts other before second)
    (hperm : other.Perm dues) (id : NameId) :
    second.tree.mustUnbox id = first.tree.mustUnbox id := by
  refine ScopeTree.mustUnbox_eq (fun id => ?_)
    (fun id source => (h'.delegated_iff id source).trans (h.delegated_iff id source).symm) id
  have hon : (duesOn other id).Perm (duesOn dues id) := hperm.filterMap _
  rw [h.mustUnbox_record, h'.mustUnbox_record, hon.any_eq]

/-- What is left of names does not depend on the order, if everything can be honoured. -/
theorem agrees_perm (h : Accounts dues before first) (h' : Accounts other before second)
    (hperm : other.Perm dues) {floor : ScopeTree} (hbounds : floor.Bounds before.tree)
    (hhonoured : ∀ due ∈ dues, due.Honoured floor) : first.tree.Agrees second.tree := by
  refine ⟨fun id hid => ?_, fun id => (h'.definition? id).trans (h.definition? id).symm⟩
  have hfree := (h.definition? id).symm.trans hid
  have hnarrows := hbounds.origin id hfree
  have hon : (duesOn dues id).Perm (duesOn other id) := (hperm.symm).filterMap _
  have hsame := NameRecord.afterDemands_perm hnarrows hfree (hbounds.known id) hon
    fun demand hmem => hhonoured _ (mem_duesOn.mp hmem) (hnarrows.definition?.trans hfree)
  rw [h.unbound id hfree, h'.unbound id hfree, hsame]

/-- The end knows all that there was to know at the beginning. -/
theorem bounds_self (h : Accounts dues before first) (hformed : first.tree.Formed) :
    first.tree.Bounds before.tree :=
  ⟨hformed.known, fun _ hid => h.narrows hid⟩

end Accounts

/-! ## Dues without arithmetic -/

section Plain

variable {layout : Layout} {base : Session Progress}

theorem operation_not_mem_duesFrom {tree : ScopeTree} {again : NodeId → Kinds → Bool → List Due}
    {operation : NodeId} (hagain : ∀ node kinds unbox, .operation operation ∉ again node kinds unbox)
    (id : NameId) (demanded : Kinds) (unbox : Bool) :
    .operation operation ∉ duesFrom tree again id demanded unbox := by
  induction id using NameId.strongInduction with
  | step id ih =>
      rw [duesFrom, List.mem_cons]
      rintro (heq | hmem)
      · cases heq
      · cases horigin : (tree.name id).origin with
        | delegated source =>
            rw [horigin] at hmem
            dsimp only at hmem
            split at hmem
            · next hlt => exact ih source hlt hmem
            · cases hmem
        | bound node kinds =>
            rw [horigin] at hmem
            exact hagain node demanded unbox hmem
        | _ =>
            rw [horigin] at hmem
            cases hmem

theorem operation_not_mem_duesOfName {tree : ScopeTree}
    {again : NodeId → Kinds → Bool → List Due} {operation : NodeId}
    (hagain : ∀ node kinds unbox, .operation operation ∉ again node kinds unbox)
    (id : NameId) (demanded : Kinds) (unbox : Bool) :
    .operation operation ∉ duesOfName tree again id demanded unbox := by
  rw [duesOfName, List.mem_cons]
  rintro (heq | hmem)
  · cases heq
  · exact operation_not_mem_duesFrom hagain id demanded unbox hmem

variable (hplain : ∀ id placement left right, layout.nodes.find? id = some placement →
  placement.expr.way ≠ .arithmetic left right)
include hplain

theorem operation_not_mem_dues (operation : NodeId) (depth : Nat) (active : List NodeId)
    (id : NodeId) (demanded : Kinds) (unbox : Bool) :
    .operation operation ∉ dues layout base depth active id demanded unbox := by
  induction depth generalizing active id demanded unbox with
  | zero => exact List.not_mem_nil
  | succ depth ih =>
      rw [dues]
      cases hplaced : layout.nodes.find? id with
      | none => exact List.not_mem_nil
      | some placement =>
          have hway := fun left right => hplain id placement left right hplaced
          have hagain := ih (id :: active)
          dsimp only
          split
          · exact List.not_mem_nil
          · unfold duesBy
            cases hexpr : placement.expr.way with
            | leaf natural => simp
            | lookup path =>
                dsimp only
                split
                · exact operation_not_mem_duesOfName hagain _ _ _
                · exact List.not_mem_nil
            | arithmetic left right => exact absurd hexpr (hway left right)
            | _ => simp [hagain]

theorem operation_not_mem_duesOfAll (operation : NodeId) (demands : List Demand) :
    .operation operation ∉ duesOfAll layout base demands := by
  have hdues := @operation_not_mem_dues layout base hplain operation (depthOf layout) []
  unfold duesOfAll
  rw [List.mem_flatMap]
  rintro ⟨demand, -, hmem⟩
  obtain ⟨ask, -, hask⟩ := List.mem_flatMap.mp hmem
  cases ask with
  | node id kinds => exact hdues id kinds false hask
  | definition value =>
      unfold duesOfAsk at hask
      dsimp only at hask
      split at hask
      · exact operation_not_mem_duesOfName hdues _ _ _ hask
      · exact hdues value .any false hask

end Plain

/-! ## Masks that agree with their sources -/

section Masks

variable {session : Session Progress}

theorem checkMask_of_meets {id : NameId}
    (h : ∀ source mask, (session.tree.name id).origin = .masked source mask →
      (session.tree.possible source).meets mask = true) :
    ((checkMask id).run session).2 = session := by
  unfold checkMask
  rw [run_bind, run_tree]
  dsimp only
  cases horigin : (session.tree.name id).origin with
  | masked source mask =>
      dsimp only
      rw [if_pos (h source mask horigin)]
      rfl
  | _ => rfl

theorem checkMasks_of_meets
    (h : ∀ id source mask, (session.tree.name id).origin = .masked source mask →
      (session.tree.possible source).meets mask = true) :
    (checkMasks.run session).2 = session := by
  refine forM_preserves (fun after => after = session) session.tree.nameIds
    (fun id _ after hsame => ?_) rfl
  rw [hsame]
  exact checkMask_of_meets (h id)

theorem trace_checkMasks (session : Session Progress) :
    (checkMasks.run session).2.trace = session.trace := by
  obtain ⟨reporter, hchecked⟩ := checkMasks_reports session
  rw [hchecked]
  rfl

end Masks

/-! ## Queues -/

/-- Rearranging a queue rearranges the demands of each priority. -/
theorem byPriority_perm (tree : ScopeTree) {queue demands : List Demand}
    (h : queue.Perm demands) : (byPriority tree queue).Perm (byPriority tree demands) := by
  have hlast : queue.foldl (fun last demand => max last (priority tree demand)) 0 =
      demands.foldl (fun last demand => max last (priority tree demand)) 0 :=
    h.foldl_eq' (fun first _ second _ last => by omega) 0
  unfold byPriority
  rw [hlast]
  exact List.Perm.flatMap_left _ fun level _ => h.filter _

theorem duesOfAll_perm (layout : Layout) (base : Session Progress) {queue demands : List Demand}
    (h : queue.Perm demands) : (duesOfAll layout base queue).Perm (duesOfAll layout base demands) :=
  h.flatMap_right _

section Units

/-- The session once every demand of a queue has been made. -/
def metIn (surveyed : Session Layout) (queue : List Demand) : Session Progress :=
  ((meet surveyed.defs (byPriority (classified surveyed).tree queue)).run
    (classified surveyed)).2

/-- The session at the end, if the demands have been put in a given queue. -/
def settledIn (surveyed : Session Layout) (queue : List Demand) : Session Progress :=
  (checkMasks.run (metIn surveyed queue)).2

theorem finished_eq_settledIn (surveyed : Session Layout) :
    finished surveyed = settledIn surveyed surveyed.defs.demands := rfl

variable {unit : Expr} {file : String} {topLevel : Bool} {queue other : List Demand}

theorem metIn_keeps (queue : List Demand) :
    Keeps (Survey.ofUnit unit file topLevel).defs (classified (Survey.ofUnit unit file topLevel))
      (metIn (Survey.ofUnit unit file topLevel) queue) :=
  meet_keeps (classified_steady unit file topLevel) _

/-- What a queue comes to. -/
def duesOfQueue (surveyed : Session Layout) (queue : List Demand) : List Due :=
  duesOfAll surveyed.defs (classified surveyed) (byPriority (classified surveyed).tree queue)

theorem duesOfQueue_perm (surveyed : Session Layout) (h : other.Perm queue) :
    (duesOfQueue surveyed other).Perm (duesOfQueue surveyed queue) :=
  duesOfAll_perm _ _ (byPriority_perm _ h)

theorem metIn_accounts (queue : List Demand) :
    Accounts (duesOfQueue (Survey.ofUnit unit file topLevel) queue)
      (classified (Survey.ofUnit unit file topLevel))
      (metIn (Survey.ofUnit unit file topLevel) queue) :=
  meet_accounts (classified_steady unit file topLevel)
    (.refl (classified_steady unit file topLevel)) _

theorem settledIn_compares (queue : List Demand) :
    Compared (metIn (Survey.ofUnit unit file topLevel) queue).tree.nameIds
      (metIn (Survey.ofUnit unit file topLevel) queue)
      (settledIn (Survey.ofUnit unit file topLevel) queue) :=
  checkMasks_compares (metIn_keeps queue).steady.counts

theorem metIn_clean
    (hclean : (settledIn (Survey.ofUnit unit file topLevel) queue).reporter.report.totalErrors = 0) :
    (metIn (Survey.ofUnit unit file topLevel) queue).reporter.report.totalErrors = 0 :=
  (settledIn_compares queue).reporter.clean hclean

/-- If nothing is wrong, what is left of names does not depend on the order of the queue. -/
theorem metIn_agrees (hperm : other.Perm queue)
    (hclean : (metIn (Survey.ofUnit unit file topLevel) queue).reporter.report.totalErrors = 0) :
    (metIn (Survey.ofUnit unit file topLevel) queue).tree.Agrees
      (metIn (Survey.ofUnit unit file topLevel) other).tree := by
  have haccounts := @metIn_accounts unit file topLevel queue
  have hcounts := (classified_steady unit file topLevel).counts
  exact haccounts.agrees_perm (metIn_accounts other) (duesOfQueue_perm _ hperm)
    (haccounts.bounds_self (metIn_keeps queue).steady.formed)
    (haccounts.honoured hcounts hclean)

/-- If nothing is wrong, nothing goes wrong in another order, as long as there are no arithmetic
operations and no definition has anything to do with a mask. -/
theorem settledIn_clean_of_perm (hperm : other.Perm queue)
    (hplain : ∀ node ∈ unit.nodes, ∀ left right, node.way ≠ .arithmetic left right)
    (hmasks : ∀ id source mask,
      ((classified (Survey.ofUnit unit file topLevel)).tree.name id).origin =
        .masked source mask →
      (classified (Survey.ofUnit unit file topLevel)).tree.supplier? id = none)
    (hclean : (settledIn (Survey.ofUnit unit file topLevel) queue).reporter.report.totalErrors = 0) :
    (settledIn (Survey.ofUnit unit file topLevel) other).reporter.report.totalErrors = 0 := by
  have hmet := metIn_clean hclean
  have hagrees := metIn_agrees hperm hmet
  have hcompares := @settledIn_compares unit file topLevel queue
  have hkeeps := @metIn_keeps unit file topLevel queue
  have haccounts := @metIn_accounts unit file topLevel queue
  have haccounts' := @metIn_accounts unit file topLevel other
  have hcounts := (classified_steady unit file topLevel).counts
  -- nothing is reported while the demands are made, since all of them have been honoured once
  have hsilent := haccounts'.silent _ (haccounts.bounds_self hkeeps.steady.formed)
    (fun due hdue => haccounts.honoured hcounts hmet due
      ((duesOfQueue_perm _ hperm).mem_iff.mp hdue))
    fun node => operation_not_mem_duesOfAll (fun id placement left right hplaced =>
      hplain _ (Survey.found_ofUnit hplaced).1 left right) node _
  -- and nothing when masks are compared, since sources of masks have been left the same
  have hstill : settledIn (Survey.ofUnit unit file topLevel) other =
      metIn (Survey.ofUnit unit file topLevel) other := by
    refine checkMasks_of_meets fun id source mask horigin => ?_
    have hfree : ((metIn (Survey.ofUnit unit file topLevel) other).tree.name id).origin.definition? =
        none := by
      rw [horigin]
      rfl
    have hfirst : ((metIn (Survey.ofUnit unit file topLevel) queue).tree.name id).origin =
        .masked source mask :=
      (hagrees.unbound id ((hagrees.definition? id).symm.trans hfree)).symm.trans horigin
    obtain ⟨old, hold⟩ := (haccounts'.exists_mask_iff id source).mp ⟨mask, horigin⟩
    have hsupplier : (metIn (Survey.ofUnit unit file topLevel) queue).tree.supplier? source =
        none := by
      rw [← ScopeTree.supplier?_of_source hkeeps.steady.formed
        (show _ = some source by rw [hfirst]; rfl), haccounts.supplier? id]
      exact hmasks id source old hold
    rw [hagrees.possible hsupplier]
    exact hcompares.meets hclean id (List.mem_map.mpr ⟨id.index, List.mem_range.mpr
      (ScopeTree.lt_size_of_source (by rw [hfirst]; rfl)), rfl⟩) source mask hfirst
  rw [hstill, hsilent]
  exact clean_of_evolves hkeeps.evolves hmet

/-- The demands on names are the same in another order. -/
theorem demandsOf_settledIn_perm (hperm : other.Perm queue) :
    (demandsOf (settledIn (Survey.ofUnit unit file topLevel) other).trace).Perm
      (demandsOf (settledIn (Survey.ofUnit unit file topLevel) queue).trace) := by
  unfold settledIn
  rw [trace_checkMasks, trace_checkMasks, (metIn_accounts other).demands,
    (metIn_accounts queue).demands, List.perm_append_right_iff]
  exact ((List.reverse_perm _).trans ((duesOfQueue_perm _ hperm).filterMap _)).trans
    (List.reverse_perm _).symm

end Units

end Evaluation

/-! ## The outcome -/

namespace Analysis

/-- What a session of a unit has found out. -/
def ofSession (file : String) (options : Options) (layout : Layout) (session : Session Progress) :
    Analysis where
  file := file
  options := options
  root := Survey.root
  tree := session.tree
  layout := layout
  progress := session.defs
  report := session.reporter.report
  trace := session.trace

/-- Analyse a unit whose demands have been put in a given queue. -/
def analyseQueued (unit : Expr) (file : String) (options : Options) (queue : List Demand) :
    Analysis :=
  let surveyed := Survey.ofUnit unit file options.topLevel
  ofSession file options surveyed.defs (Evaluation.settledIn surveyed queue)

theorem success_ofSession (file : String) (options : Options) (layout : Layout)
    (session : Session Progress) :
    (ofSession file options layout session).success = true ↔
      session.reporter.report.totalErrors = 0 := by
  unfold success Report.hasErrors ofSession
  simp

section Units

variable {unit : Expr} {file : String} {options : Options} {queue : List Demand}

theorem analyse_eq_ofSession : analyse unit file options =
    ofSession file options (Survey.ofUnit unit file options.topLevel).defs
      (Evaluation.finished (Survey.ofUnit unit file options.topLevel)) := by
  unfold analyse ofSession
  dsimp only

theorem analyseQueued_demands :
    analyseQueued unit file options (analyse unit file options).layout.demands =
      analyse unit file options := by
  rw [analyse_eq_ofSession, Evaluation.finished_eq_settledIn]
  rfl

theorem tree_analyseQueued : (analyseQueued unit file options queue).tree =
    (Evaluation.metIn (Survey.ofUnit unit file options.topLevel) queue).tree :=
  (Evaluation.settledIn_compares queue).tree

/-- Rearranging the queue of the demands of a unit, and so the demands of each priority, leaves
the demands that are made on names the same.  Which names are needed unboxed is the same, and
if nothing is wrong, so is what every name can be that no definition supplies.  Without
arithmetic operations and masks over what definitions supply, it is the same whether anything
is wrong. -/
theorem outcome_of_queue_perm (hperm : queue.Perm (analyse unit file options).layout.demands) :
    analyseQueued unit file options (analyse unit file options).layout.demands =
      analyse unit file options ∧
    (demandsOf (analyseQueued unit file options queue).trace).Perm
      (demandsOf (analyse unit file options).trace) ∧
    (∀ name, (analyseQueued unit file options queue).mustUnbox name =
      (analyse unit file options).mustUnbox name) ∧
    ((analyse unit file options).success = true →
      ∀ name, (analyse unit file options).tree.supplier? name = none →
        (analyseQueued unit file options queue).possible name =
          (analyse unit file options).possible name) ∧
    ((∀ node ∈ unit.nodes, ∀ left right, node.way ≠ .arithmetic left right) →
      (∀ name source mask,
        ((analyse unit file options).tree.name name).origin = .masked source mask →
          (analyse unit file options).tree.supplier? name = none) →
      (analyseQueued unit file options queue).success =
        (analyse unit file options).success) := by
  refine ⟨analyseQueued_demands, ?_⟩
  rw [← analyseQueued_demands]
  generalize (analyse unit file options).layout.demands = demands at hperm ⊢
  have haccounts := @Evaluation.metIn_accounts unit file options.topLevel
  refine ⟨?_, fun name => ?_, fun hsuccess name hname => ?_, fun hplain hmasks => ?_⟩
  · exact Evaluation.demandsOf_settledIn_perm hperm
  · unfold mustUnbox
    rw [tree_analyseQueued, tree_analyseQueued]
    exact (haccounts demands).mustUnbox_perm (haccounts queue)
      (Evaluation.duesOfQueue_perm _ hperm) name
  · have hclean := Evaluation.metIn_clean ((success_ofSession ..).mp hsuccess)
    unfold possible
    rw [tree_analyseQueued] at hname
    rw [tree_analyseQueued, tree_analyseQueued]
    exact (Evaluation.metIn_agrees hperm hclean).possible hname
  · -- a mask may be narrowed, but what is under it stays where it is
    have hbefore : ∀ name source mask,
        ((Evaluation.classified (Survey.ofUnit unit file options.topLevel)).tree.name name).origin =
          .masked source mask →
        (Evaluation.classified (Survey.ofUnit unit file options.topLevel)).tree.supplier? name =
          none := by
      intro name source mask horigin
      obtain ⟨left, hleft⟩ := ((haccounts demands).exists_mask_iff name source).mpr ⟨mask, horigin⟩
      rw [tree_analyseQueued] at hmasks
      rw [← (haccounts demands).supplier? name]
      exact hmasks name source left hleft
    unfold analyseQueued
    rw [Bool.eq_iff_iff, success_ofSession, success_ofSession]
    exact ⟨Evaluation.settledIn_clean_of_perm hperm.symm hplain hbefore,
      Evaluation.settledIn_clean_of_perm hperm hplain hbefore⟩

end Units

/-- A frame in which a name is looked up twice, as it is and as a whole number.  Each lookup is
the value of a name in a scope of its own, and the two scopes have the same priority. -/
def beside : Expr :=
  let mark (id : Nat) : Mark := ⟨⟨id⟩, .point 1 (UInt32.ofNat (id + 1))⟩
  .frame (mark 7)
    [.of "a" (.letIn (mark 2) [.of "p" (.lookup (mark 0) ["t"])] (.literal (mark 1) .null)),
     .of "b" (.letIn (mark 6) [.of "q" (.enforce (mark 4) (.lookup (mark 3) ["t"]) {.int})]
       (.literal (mark 5) .null))]

/-- The queue of that unit with the demands of the second scope before those of the first. -/
def turned : List Demand :=
  [⟨⟨3⟩, [.node ⟨4⟩ .any]⟩, ⟨⟨3⟩, [.definition ⟨4⟩]⟩, ⟨⟨2⟩, [.definition ⟨0⟩]⟩,
    ⟨⟨1⟩, [.definition ⟨2⟩, .definition ⟨6⟩]⟩, ⟨⟨0⟩, [.node ⟨7⟩ .any]⟩]

/-- In the other order the name that is looked up is still a whole number, and nothing is
wrong. -/
theorem outcome_of_queue_perm_beside :
    turned.Perm (analyse beside "beside" .default).layout.demands ∧
      (analyse beside "beside" .default).tree.supplier? ⟨5⟩ = none ∧
      (analyseQueued beside "beside" .default turned).possible ⟨5⟩ = {.int} ∧
      (analyseQueued beside "beside" .default turned).mustUnbox ⟨5⟩ = true ∧
      (analyseQueued beside "beside" .default turned).success = true := by
  have hperm : turned.Perm (analyse beside "beside" .default).layout.demands := by decide +kernel
  have hsuccess : (analyse beside "beside" .default).success = true := by decide +kernel
  have hsupplier : (analyse beside "beside" .default).tree.supplier? ⟨5⟩ = none := by
    decide +kernel
  have hpossible : (analyse beside "beside" .default).possible ⟨5⟩ = {.int} := by decide +kernel
  have hunbox : (analyse beside "beside" .default).mustUnbox ⟨5⟩ = true := by decide +kernel
  have hsize : (analyse beside "beside" .default).tree.names.size = 7 := by decide +kernel
  have hlabels : ∀ index < 7,
      ((analyse beside "beside" .default).tree.name ⟨index⟩).origin.label ≠ "copy-masked" := by
    decide +kernel
  have hplain : ∀ node ∈ beside.nodes, ∀ left right, node.way ≠ .arithmetic left right := by
    simp [beside, Expr.nodes, Expr.nodesOfAttributes, Attribute.of, Expr.way]
  obtain ⟨-, -, hneeded, hleft, hflag⟩ :=
    outcome_of_queue_perm hperm
  refine ⟨hperm, hsupplier, (hleft hsuccess ⟨5⟩ hsupplier).trans hpossible,
    (hneeded ⟨5⟩).trans hunbox, (hflag hplain fun name source mask horigin => ?_).trans hsuccess⟩
  -- nothing is inherited under a mask
  have hname : name.index < 7 :=
    hsize ▸ @ScopeTree.lt_size_of_source _ name source (by rw [horigin]; rfl)
  exact absurd (by rw [horigin]; rfl) (hlabels name.index hname)

/-- Rearranging the demands of one priority may change what a name can be: in the other order, the
name is known to be a whole number by the time that it is looked up as it is. -/
theorem not_order_irrelevant :
    ¬ ∀ (unit : Expr) (file : String) (options : Options) (queue : List Demand), unit.Distinct →
      queue.Perm (analyse unit file options).layout.demands →
      queue.map (Evaluation.priority (analyse unit file options).tree) =
        (analyse unit file options).layout.demands.map
          (Evaluation.priority (analyse unit file options).tree) →
        (analyseQueued unit file options queue).success = (analyse unit file options).success ∧
        ∀ name, (analyseQueued unit file options queue).possible name =
            (analyse unit file options).possible name ∧
          (analyseQueued unit file options queue).mustUnbox name =
            (analyse unit file options).mustUnbox name := by
  intro hall
  obtain ⟨-, hnames⟩ := hall beside "beside" .default turned (by decide) (by decide +kernel)
    (by decide +kernel)
  -- the name that is bound to the first lookup
  have hany : (analyse beside "beside" .default).possible ⟨2⟩ = .any := by decide +kernel
  have hint : (analyseQueued beside "beside" .default turned).possible ⟨2⟩ = {.int} := by
    decide +kernel
  have hsame := (hint.symm.trans (hnames ⟨2⟩).1).trans hany
  exact absurd hsame (by decide)

end Analysis

end FrameLang
