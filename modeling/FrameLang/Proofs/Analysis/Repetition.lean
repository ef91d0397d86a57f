import FrameLang.Proofs.Analysis.Order
import Mathlib.Order.OrderIsoNat

/-!
# Demands made once more

Every demand of a unit is made once.  Made once more, the demands ask for the same again, and
what they ask for has been honoured.  So nothing changes with the names that no definition
supplies, and nothing goes wrong that has not gone wrong before, except with arithmetic operations
(`Analysis.repetition_of_success`).

A name that is bound to a definition may come to know more, because the definition may
depend on something that has been narrowed after it was evaluated.  So making every demand once is
not always enough (`Analysis.not_idempotent`).  But what is known is only ever
narrowed, and after finitely many repetitions there is nothing left to be found out.

## Strategy

The dues of a repetition are those of the first time.  They have been honoured, so they leave
each record as it is that accounts for all that is known of it (`Evaluation.Paid.still`).
-/

namespace FrameLang

/-! ## Sets of kinds that only get smaller -/

namespace Kinds

variable {first second : Kinds}

theorem sublist_toList (h : first ⊆ second) : first.toList.Sublist second.toList := by
  unfold toList
  refine List.monotone_filter_right _ fun kind hkind => ?_
  rw [decide_eq_true_eq] at hkind ⊢
  exact subset_iff.mp h kind hkind

theorem eq_of_subset_of_size (h : first ⊆ second) (hsize : first.size = second.size) :
    first = second := by
  have hlist : first.toList = second.toList := (sublist_toList h).eq_of_length hsize
  ext kind
  rw [← mem_toList, hlist, mem_toList]

/-- Whatever only ever gets smaller stays the same in the end. -/
theorem exists_stable {known : Nat → Kinds} (h : ∀ times, known (times + 1) ⊆ known times) :
    ∃ enough, ∀ times, enough ≤ times → known times = known enough := by
  have hle : ∀ {less more : Nat}, less ≤ more → known more ⊆ known less := by
    intro less more hle
    induction hle with
    | refl => exact subset_refl _
    | step _ ih => exact subset_trans (h _) ih
  -- their sizes cannot go down forever
  have hsizes : Antitone fun times => (known times).size :=
    fun _ _ hle' => (sublist_toList (hle hle')).length_le
  obtain ⟨enough, hstable⟩ := WellFoundedLT.antitone_chain_condition hsizes
  exact ⟨enough, fun times htimes =>
    eq_of_subset_of_size (hle htimes) (hstable times htimes).symm⟩

/-- The same for finitely many sets at once. -/
theorem exists_stable_of_list {α : Type} {known : Nat → α → Kinds}
    (h : ∀ times item, known (times + 1) item ⊆ known times item) (items : List α) :
    ∃ enough, ∀ times, enough ≤ times → ∀ item ∈ items, known times item = known enough item := by
  induction items with
  | nil => exact ⟨0, by simp⟩
  | cons first rest ih =>
      obtain ⟨enough, hrest⟩ := ih
      obtain ⟨enough', hfirst⟩ := @exists_stable (fun times => known times first) fun times =>
        h times first
      refine ⟨max enough enough', fun times htimes item hitem => ?_⟩
      have hleft : enough ≤ times := by omega
      have hright : enough' ≤ times := by omega
      rcases List.mem_cons.mp hitem with rfl | hmem
      · rw [hfirst times hright, hfirst (max enough enough') (by omega)]
      · rw [hrest times hleft item hmem, hrest (max enough enough') (by omega) item hmem]

end Kinds

namespace Evaluation

open ScopeM

/-! ## Once more -/

/-- Make every demand of a unit. -/
def again (surveyed : Session Layout) (session : Session Progress) : Session Progress :=
  ((meet surveyed.defs (byPriority (classified surveyed).tree surveyed.defs.demands)).run
    session).2

/-- The session at the end, after every demand has been made a number of times more. -/
def repeated (surveyed : Session Layout) : (times : Nat) → Session Progress
  | 0 => finished surveyed
  | times + 1 => again surveyed (repeated surveyed times)

/-- Everything that is due has been honoured, and every value that is needed unboxed is known to
be. -/
structure Paid (dues : List Due) (session : Session Progress) : Prop where
  honoured : ∀ due ∈ dues, due.Honoured session.tree
  unboxed : ∀ id kinds, .record id kinds true ∈ dues → session.tree.isJunk id = false →
    (session.tree.name id).mustUnbox = true

namespace Paid

variable {dues : List Due} {before after : Session Progress}

/-- What is due a second time leaves names alone that are not bound to definitions. -/
theorem still (h : Paid dues before) (haccounts : Accounts dues before after) {id : NameId}
    (hid : (before.tree.name id).origin.definition? = none) :
    after.tree.name id = before.tree.name id := by
  rw [haccounts.unbound id hid]
  refine NameRecord.afterDemands_of_met _ ?_ ?_
  · rintro ⟨kinds, unbox⟩ hmem
    exact h.honoured _ (mem_duesOn.mp hmem) hid
  · rintro hlive ⟨kinds, unbox⟩ hmem rfl
    exact h.unboxed id kinds (mem_duesOn.mp hmem) hlive

theorem mustUnbox_record (h : Paid dues before) (haccounts : Accounts dues before after)
    (id : NameId) : (after.tree.name id).mustUnbox = (before.tree.name id).mustUnbox := by
  rw [haccounts.mustUnbox_record]
  cases hlive : (before.tree.name id).isJunk with
  | true => simp
  | false =>
      cases hneeded : (duesOn dues id).any Prod.snd with
      | false => simp
      | true =>
          obtain ⟨⟨kinds, unbox⟩, hmem, hunbox⟩ := List.any_eq_true.mp hneeded
          obtain rfl : unbox = true := hunbox
          rw [h.unboxed id kinds (mem_duesOn.mp hmem) hlive]
          rfl

theorem agrees (h : Paid dues before) (haccounts : Accounts dues before after) :
    before.tree.Agrees after.tree :=
  ⟨fun _ hid => by rw [h.still haccounts hid], haccounts.definition?⟩

theorem mustUnbox (h : Paid dues before) (haccounts : Accounts dues before after) (id : NameId) :
    after.tree.mustUnbox id = before.tree.mustUnbox id :=
  ScopeTree.mustUnbox_eq (h.mustUnbox_record haccounts) haccounts.delegated_iff id

/-- What has been paid once has been paid for good. -/
theorem again (h : Paid dues before) (haccounts : Accounts dues before after) :
    Paid dues after := by
  refine ⟨fun due hdue => haccounts.honoured_of (h.honoured due hdue),
    fun id kinds hdue hlive => ?_⟩
  rw [h.mustUnbox_record haccounts]
  exact h.unboxed id kinds hdue ((haccounts.isJunk id).symm.trans hlive)

/-- Nothing goes wrong a second time, except with arithmetic operations. -/
theorem silent (h : Paid dues before) (haccounts : Accounts dues before after)
    (hformed : before.tree.Formed) (hplain : ∀ node, .operation node ∉ dues) :
    after.reporter = before.reporter :=
  haccounts.silent before.tree ⟨hformed.known, fun _ _ => .refl _⟩ h.honoured hplain

end Paid

/-- If nothing is wrong, everything that is due has been paid. -/
theorem Accounts.paid {dues : List Due} {before after : Session Progress}
    (h : Accounts dues before after) (hcounts : before.reporter.Counts)
    (hclean : after.reporter.report.totalErrors = 0) : Paid dues after := by
  refine ⟨h.honoured hcounts hclean, fun id kinds hdue hlive => ?_⟩
  have hneeded : (duesOn dues id).any Prod.snd = true :=
    List.any_eq_true.mpr ⟨(kinds, true), mem_duesOn.mpr hdue, rfl⟩
  have hbefore : (before.tree.name id).isJunk = false := (h.isJunk id).symm.trans hlive
  rw [h.mustUnbox_record, hneeded, hbefore]
  simp

/-! ## Whole units -/

section Units

variable (unit : Expr) (file : String) (topLevel : Bool)

theorem finished_keeps : Keeps (Survey.ofUnit unit file topLevel).defs
    (classified (Survey.ofUnit unit file topLevel))
    (finished (Survey.ofUnit unit file topLevel)) := by
  have hmet := met_keeps unit file topLevel
  have hplain : Plain (met (Survey.ofUnit unit file topLevel))
      (finished (Survey.ofUnit unit file topLevel)) := checkMasks_plain hmet.steady.formed
  have hcompares := finished_compares unit file topLevel
  generalize finished (Survey.ofUnit unit file topLevel) = last at hplain hcompares ⊢
  have hbalanced : Balanced (Survey.ofUnit unit file topLevel).defs last :=
    balanced_of_eq hmet.steady.balanced (by rw [hcompares.tree])
      (fun scope => by rw [hcompares.tree]) fun node => by rw [hcompares.defs]
  exact hmet.trans (hmet.steady.keeps hplain.evolves hplain.resolved hbalanced)

variable {unit file topLevel}

theorem again_keeps {session : Session Progress}
    (h : Steady (Survey.ofUnit unit file topLevel).defs session) :
    Keeps (Survey.ofUnit unit file topLevel).defs session
      (again (Survey.ofUnit unit file topLevel) session) :=
  meet_keeps h _

theorem again_accounts {session : Session Progress}
    (h : Keeps (Survey.ofUnit unit file topLevel).defs
      (classified (Survey.ofUnit unit file topLevel)) session) :
    Accounts (duesOfQueue (Survey.ofUnit unit file topLevel)
        (Survey.ofUnit unit file topLevel).defs.demands) session
      (again (Survey.ofUnit unit file topLevel) session) :=
  meet_accounts (classified_steady unit file topLevel) h _

theorem repeated_keeps (times : Nat) : Keeps (Survey.ofUnit unit file topLevel).defs
    (classified (Survey.ofUnit unit file topLevel))
    (repeated (Survey.ofUnit unit file topLevel) times) := by
  induction times with
  | zero => exact finished_keeps unit file topLevel
  | succ times ih => exact ih.trans (again_keeps ih.steady)

theorem finished_paid
    (hclean : (finished (Survey.ofUnit unit file topLevel)).reporter.report.totalErrors = 0) :
    Paid (duesOfQueue (Survey.ofUnit unit file topLevel)
      (Survey.ofUnit unit file topLevel).defs.demands)
      (finished (Survey.ofUnit unit file topLevel)) := by
  have hmet := (metIn_accounts (Survey.ofUnit unit file topLevel).defs.demands).paid
    (classified_steady unit file topLevel).counts
  have hcompares := @settledIn_compares unit file topLevel
    (Survey.ofUnit unit file topLevel).defs.demands
  have hfirst := @metIn_clean unit file topLevel (Survey.ofUnit unit file topLevel).defs.demands
  rw [finished_eq_settledIn] at hclean ⊢
  obtain ⟨hhonoured, hunboxed⟩ := hmet (hfirst hclean)
  rw [← hcompares.tree] at hhonoured hunboxed
  exact ⟨hhonoured, hunboxed⟩

/-- Whatever has been paid at the end has been paid after every repetition. -/
theorem repeated_paid
    (hclean : (finished (Survey.ofUnit unit file topLevel)).reporter.report.totalErrors = 0)
    (times : Nat) :
    Paid (duesOfQueue (Survey.ofUnit unit file topLevel)
        (Survey.ofUnit unit file topLevel).defs.demands)
      (repeated (Survey.ofUnit unit file topLevel) times) := by
  induction times with
  | zero => exact finished_paid hclean
  | succ times ih => exact ih.again (again_accounts (repeated_keeps times))

theorem mustUnbox_repeated
    (hclean : (finished (Survey.ofUnit unit file topLevel)).reporter.report.totalErrors = 0)
    (times : Nat) (id : NameId) :
    (repeated (Survey.ofUnit unit file topLevel) times).tree.mustUnbox id =
      (finished (Survey.ofUnit unit file topLevel)).tree.mustUnbox id := by
  induction times with
  | zero => rfl
  | succ times ih =>
      have hagain := (repeated_paid hclean times).mustUnbox
        (again_accounts (repeated_keeps times)) id
      exact hagain.trans ih

theorem possible_repeated
    (hclean : (finished (Survey.ofUnit unit file topLevel)).reporter.report.totalErrors = 0)
    (times : Nat) {id : NameId}
    (hid : (finished (Survey.ofUnit unit file topLevel)).tree.supplier? id = none) :
    (repeated (Survey.ofUnit unit file topLevel) times).tree.supplier? id = none ∧
      (repeated (Survey.ofUnit unit file topLevel) times).tree.possible id =
        (finished (Survey.ofUnit unit file topLevel)).tree.possible id := by
  induction times with
  | zero => exact ⟨hid, rfl⟩
  | succ times ih =>
      obtain ⟨hsupplier, hpossible⟩ := ih
      have haccounts := @again_accounts unit file topLevel _ (repeated_keeps times)
      refine ⟨(haccounts.supplier? id).trans hsupplier, ?_⟩
      exact (((repeated_paid hclean times).agrees haccounts).possible hsupplier).trans hpossible

theorem repeated_clean
    (hclean : (finished (Survey.ofUnit unit file topLevel)).reporter.report.totalErrors = 0)
    (hplain : ∀ node ∈ unit.nodes, ∀ left right, node.way ≠ .arithmetic left right)
    (times : Nat) :
    (repeated (Survey.ofUnit unit file topLevel) times).reporter.report.totalErrors = 0 := by
  induction times with
  | zero =>
      rw [repeated]
      exact hclean
  | succ times ih =>
      have hkeeps := @repeated_keeps unit file topLevel times
      have hsilent := (repeated_paid hclean times).silent (again_accounts hkeeps)
        hkeeps.steady.formed fun node => operation_not_mem_duesOfAll
          (fun id placement left right hplaced =>
            hplain _ (Survey.found_ofUnit hplaced).1 left right) node _
      rw [repeated, hsilent]
      exact ih

/-- There comes a time when nothing is left to be found out. -/
theorem exists_repeated_stable (names : List NameId) (nodes : List NodeId) :
    ∃ enough, ∀ times, enough ≤ times →
      (∀ name ∈ names, (repeated (Survey.ofUnit unit file topLevel) times).tree.possible name =
        (repeated (Survey.ofUnit unit file topLevel) enough).tree.possible name) ∧
      ∀ node ∈ nodes, (repeated (Survey.ofUnit unit file topLevel) times).defs.kindsOf node =
        (repeated (Survey.ofUnit unit file topLevel) enough).defs.kindsOf node := by
  have hstep := fun times => again_keeps (@repeated_keeps unit file topLevel times).steady
  obtain ⟨enough, hnames⟩ := @Kinds.exists_stable_of_list NameId
    (fun times name => (repeated (Survey.ofUnit unit file topLevel) times).tree.possible name)
    (fun times name => (hstep times).evolves.grows.possible_subset
      (repeated_keeps times).steady.formed (hstep times).steady.formed name) names
  obtain ⟨enough', hnodes⟩ := @Kinds.exists_stable_of_list NodeId
    (fun times node => (repeated (Survey.ofUnit unit file topLevel) times).defs.kindsOf node)
    (fun times node => ((hstep times).evolves.later.kinds node).subset) nodes
  refine ⟨max enough enough', fun times htimes => ⟨fun name hname => ?_, fun node hnode => ?_⟩⟩
  · exact (hnames times (by omega) name hname).trans (hnames _ (by omega) name hname).symm
  · exact (hnodes times (by omega) node hnode).trans (hnodes _ (by omega) node hnode).symm

end Units

end Evaluation

/-! ## The outcome -/

namespace Analysis

/-- Analyse a unit, and make all its demands a number of times more. -/
def analyseRepeated (unit : Expr) (file : String) (options : Options) (times : Nat) : Analysis :=
  let surveyed := Survey.ofUnit unit file options.topLevel
  ofSession file options surveyed.defs (Evaluation.repeated surveyed times)

section Units

variable {unit : Expr} {file : String} {options : Options}

theorem analyseRepeated_zero :
    analyseRepeated unit file options 0 = analyse unit file options := by
  rw [analyse_eq_ofSession]
  rfl

theorem tree_analyseRepeated (times : Nat) : (analyseRepeated unit file options times).tree =
    (Evaluation.repeated (Survey.ofUnit unit file options.topLevel) times).tree := rfl

theorem kindsOf?_analyseRepeated (times : Nat) (node : NodeId) :
    (analyseRepeated unit file options times).kindsOf? node =
      ((Survey.ofUnit unit file options.topLevel).defs.nodes.find? node).map fun _ =>
        (Evaluation.repeated (Survey.ofUnit unit file options.topLevel) times).defs.kindsOf node :=
  rfl

/-- If nothing is wrong with a unit and all its demands are made again, any number of times, the
same names are needed unboxed, and every name that no definition supplies can be the same.  Nothing
goes wrong either, unless there are arithmetic operations.  After some number of times nothing
changes any more: no name and no node comes to be known better. -/
theorem repetition_of_success (hsuccess : (analyse unit file options).success = true) :
    analyseRepeated unit file options 0 = analyse unit file options ∧
    (∀ times name, (analyseRepeated unit file options times).mustUnbox name =
      (analyse unit file options).mustUnbox name) ∧
    (∀ times name, (analyse unit file options).tree.supplier? name = none →
      (analyseRepeated unit file options times).possible name =
        (analyse unit file options).possible name) ∧
    ((∀ node ∈ unit.nodes, ∀ left right, node.way ≠ .arithmetic left right) →
      ∀ times, (analyseRepeated unit file options times).success = true) ∧
    ∃ enough, ∀ times, enough ≤ times →
      (∀ name ∈ (analyse unit file options).tree.nameIds,
        (analyseRepeated unit file options times).possible name =
          (analyseRepeated unit file options enough).possible name) ∧
      ∀ node ∈ unit.nodes,
        (analyseRepeated unit file options times).kindsOf? node.id =
          (analyseRepeated unit file options enough).kindsOf? node.id := by
  have hclean := totalErrors_eq_zero hsuccess
  refine ⟨analyseRepeated_zero, fun times name => ?_, fun times name hname => ?_,
    fun hplain times => ?_, ?_⟩
  · unfold mustUnbox
    rw [tree_analyseRepeated, tree_analyse]
    exact Evaluation.mustUnbox_repeated hclean times name
  · unfold possible
    rw [tree_analyse] at hname ⊢
    rw [tree_analyseRepeated]
    exact (Evaluation.possible_repeated hclean times hname).2
  · exact (success_ofSession ..).mpr (Evaluation.repeated_clean hclean hplain times)
  · generalize (analyse unit file options).tree.nameIds = names
    obtain ⟨enough, hstable⟩ := @Evaluation.exists_repeated_stable unit file options.topLevel names
      (unit.nodes.map Expr.id)
    refine ⟨enough, fun times htimes => ?_⟩
    obtain ⟨hnames, hnodes⟩ := hstable times htimes
    refine ⟨fun name hname => ?_, fun node hnode => ?_⟩
    · unfold possible
      rw [tree_analyseRepeated, tree_analyseRepeated]
      exact hnames name hname
    · rw [kindsOf?_analyseRepeated, kindsOf?_analyseRepeated,
        hnodes node.id (List.mem_map_of_mem hnode)]

end Units

/-- A frame in which a name is looked up as it is, and instantiated further inside. -/
def inside : Expr :=
  let mark (id : Nat) : Mark := ⟨⟨id⟩, .point 1 (UInt32.ofNat (id + 1))⟩
  .frame (mark 3)
    [.of "a" (.lookup (mark 0) ["t"]), .of "b" (.instantiate (mark 2) (.lookup (mark 1) ["t"]) [])]

/-- The name that is looked up is a template, however often that is demanded. -/
theorem repetition_of_success_inside :
    (analyse inside "inside" .default).success = true ∧
      (analyse inside "inside" .default).tree.supplier? ⟨2⟩ = none ∧
      (∀ times, (analyseRepeated inside "inside" .default times).possible ⟨2⟩ = {.template}) ∧
      ∀ times, (analyseRepeated inside "inside" .default times).success = true := by
  have hsuccess : (analyse inside "inside" .default).success = true := by decide +kernel
  have hsupplier : (analyse inside "inside" .default).tree.supplier? ⟨2⟩ = none := by
    decide +kernel
  have hpossible : (analyse inside "inside" .default).possible ⟨2⟩ = {.template} := by
    decide +kernel
  have hplain : ∀ node ∈ inside.nodes, ∀ left right, node.way ≠ .arithmetic left right := by
    simp [inside, Expr.nodes, Expr.nodesOfAttributes, Expr.nodesOfOverrides, Attribute.of, Expr.way]
  obtain ⟨-, -, hsame, hflag, -⟩ := repetition_of_success hsuccess
  exact ⟨hsuccess, hsupplier, fun times => (hsame times ⟨2⟩ hsupplier).trans hpossible,
    hflag hplain⟩

/-- To make every demand once is not always enough: the attribute that is looked up before the
name is known to be a template is not known to be one. -/
theorem not_idempotent :
    ¬ ∀ (unit : Expr) (file : String) (options : Options), unit.Distinct →
      (analyse unit file options).success = true →
        (analyseRepeated unit file options 1).success = true ∧
        (∀ name, (analyseRepeated unit file options 1).possible name =
          (analyse unit file options).possible name) ∧
        ∀ node, (analyseRepeated unit file options 1).kindsOf? node =
          (analyse unit file options).kindsOf? node := by
  intro hall
  obtain ⟨-, hnames, -⟩ := hall inside "inside" .default (by decide) (by decide +kernel)
  -- the name that is bound to the first lookup
  have hany : (analyse inside "inside" .default).possible ⟨0⟩ = .any := by decide +kernel
  have htemplate : (analyseRepeated inside "inside" .default 1).possible ⟨0⟩ = {.template} := by
    decide +kernel
  have hsame := (htemplate.symm.trans (hnames ⟨0⟩)).trans hany
  exact absurd hsame (by decide)

end Analysis

end FrameLang
