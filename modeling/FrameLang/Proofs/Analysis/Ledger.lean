import FrameLang.Proofs.Analysis.Demands
import FrameLang.Proofs.Scope.Demands

/-!
# What evaluation asks for

Evaluation finds its way by the layout of the unit and by what lookups mean, never by
what is known: a name hands a demand on, or it does not, whatever kinds it may have.  So
all that an evaluation asks for can be listed without running it (`Evaluation.dues`).

The list accounts for what becomes of a session (`Evaluation.Accounts`): which demands
are made, what is left of each name that is not bound to a definition, and which names are
needed unboxed.  It does not account for what definitions prove, nor for what is known of
an arithmetic operation.

## Strategy

`dues` goes through the nodes like `evaluate` does, in a *base* session.  Every session
that the base turns into has the same dues, because names stay what they are
(`ScopeTree.Grows`).  Accounts of one step after the other are put together by
`Accounts.trans`, and the proofs about evaluation only say which steps there are.
-/

namespace FrameLang

/-! ## Dues -/

/-- Something that an evaluation asks for. -/
inductive Due where
  /-- A demand is made on a name. -/
  | name (id : NameId) (kinds : Kinds) (unbox : Bool)
  /-- A demand gets to a record, which may hand it on. -/
  | record (id : NameId) (kinds : Kinds) (unbox : Bool)
  /-- Some kinds are demanded of a construct that has kinds of its own. -/
  | leaf (natural demanded : Kinds)
  /-- The result of an arithmetic operation is weighed. -/
  | operation (node : NodeId)
  deriving DecidableEq, Repr

namespace Due

/-- The demand on a name. -/
def demand? : Due → Option (NameId × Kinds × Bool)
  | name id kinds unbox => some (id, kinds, unbox)
  | _ => none

/-- What gets to one record. -/
def on? (id : NameId) : Due → Option (Kinds × Bool)
  | record other kinds unbox => if other = id then some (kinds, unbox) else none
  | _ => none

/-- What is due agrees with what is known: with the kinds of a construct, and with the record
of a name that is not bound to a definition. -/
def Honoured (tree : ScopeTree) : Due → Prop
  | record id kinds _ =>
      (tree.name id).origin.definition? = none → (tree.name id).origin.Met kinds
  | leaf natural demanded => natural.meets demanded = true
  | _ => True

theorem on?_eq_some_iff {due : Due} {id : NameId} {kinds : Kinds} {unbox : Bool} :
    due.on? id = some (kinds, unbox) ↔ due = .record id kinds unbox := by
  cases due with
  | record other others needed =>
      rw [on?]
      split
      · next heq => simp [heq]
      · next hne => simp [hne]
  | _ => simp [on?]

end Due

/-- The demands that get to one record. -/
def duesOn (dues : List Due) (id : NameId) : List (Kinds × Bool) := dues.filterMap (Due.on? id)

theorem mem_duesOn {dues : List Due} {id : NameId} {kinds : Kinds} {unbox : Bool} :
    (kinds, unbox) ∈ duesOn dues id ↔ .record id kinds unbox ∈ dues := by
  unfold duesOn
  rw [List.mem_filterMap]
  constructor
  · rintro ⟨due, hdue, hon⟩
    rw [← Due.on?_eq_some_iff.mp hon]
    exact hdue
  · exact fun hdue => ⟨_, hdue, Due.on?_eq_some_iff.mpr rfl⟩

/-- The demand on a name that an event tells of. -/
def Event.demand? : Event → Option (NameId × Kinds × Bool)
  | asked name demanded unbox => some (name, demanded, unbox)
  | _ => none

/-- The demands on names in a trace, newest first. -/
def demandsOf (trace : List Event) : List (NameId × Kinds × Bool) :=
  trace.filterMap Event.demand?

/-! ## Accounts -/

/-- A tree knows no less than another one of names that are not bound to definitions. -/
structure ScopeTree.Bounds (floor tree : ScopeTree) : Prop where
  known : ∀ id, (floor.name id).origin.known ≠ ∅
  origin : ∀ id, (tree.name id).origin.definition? = none →
    (tree.name id).origin.Narrows (floor.name id).origin

namespace Evaluation

open ScopeM

/-- What has been asked for accounts for what has become of a session. -/
structure Accounts (dues : List Due) (before after : Session Progress) : Prop where
  demands : demandsOf after.trace =
    (dues.filterMap Due.demand?).reverse ++ demandsOf before.trace
  unbound : ∀ id, (before.tree.name id).origin.definition? = none →
    after.tree.name id = (before.tree.name id).afterDemands (duesOn dues id)
  bound : ∀ id node, (before.tree.name id).origin.definition? = some node →
    (after.tree.name id).origin.definition? = some node ∧
      (after.tree.name id).mustUnbox =
        ((before.tree.name id).mustUnbox || (duesOn dues id).any Prod.snd)
  reporter : before.reporter.Grows after.reporter
  /-- If nothing is wrong, everything has been honoured. -/
  honoured : before.reporter.Counts → after.reporter.report.totalErrors = 0 →
    ∀ due ∈ dues, due.Honoured after.tree
  /-- If everything can be honoured, nothing goes wrong but with arithmetic operations. -/
  silent : ∀ floor : ScopeTree, floor.Bounds before.tree → (∀ due ∈ dues, due.Honoured floor) →
    (∀ node, .operation node ∉ dues) → after.reporter = before.reporter

namespace Accounts

variable {dues first second : List Due} {before middle after : Session Progress}

theorem definition? (h : Accounts dues before after) (id : NameId) :
    (after.tree.name id).origin.definition? = (before.tree.name id).origin.definition? := by
  cases hbound : (before.tree.name id).origin.definition? with
  | none =>
      rw [h.unbound id hbound]
      exact ((before.tree.name id).grows_afterDemands _).origin.definition?.trans hbound
  | some node => exact (h.bound id node hbound).1

theorem bounds (h : Accounts dues before after) {floor : ScopeTree}
    (hbounds : floor.Bounds before.tree) (hhonoured : ∀ due ∈ dues, due.Honoured floor) :
    floor.Bounds after.tree := by
  refine ⟨hbounds.known, fun id hafter => ?_⟩
  have hbefore := (h.definition? id).symm.trans hafter
  have hnarrows := hbounds.origin id hbefore
  rw [h.unbound id hbefore]
  refine NameRecord.narrows_afterDemands hnarrows hbefore (hbounds.known id) _ ?_
  rintro ⟨kinds, unbox⟩ hmem
  exact hhonoured _ (mem_duesOn.mp hmem) (hnarrows.definition?.trans hbefore)

/-- What has been honoured stays honoured. -/
theorem honoured_of (h : Accounts dues before after) {due : Due}
    (hdue : due.Honoured before.tree) : due.Honoured after.tree := by
  cases due with
  | record id kinds unbox =>
      intro hafter
      have hbefore := (h.definition? id).symm.trans hafter
      rw [h.unbound id hbefore]
      exact (hdue hbefore).narrows ((before.tree.name id).grows_afterDemands _).origin
  | leaf natural demanded => exact hdue
  | _ => trivial

/-- Nothing gets to a record, and nothing happens to names. -/
theorem still (hnames : after.tree.names = before.tree.names) (hdues : ∀ id, duesOn dues id = [])
    (hdemands : demandsOf after.trace =
      (dues.filterMap Due.demand?).reverse ++ demandsOf before.trace)
    (hreporter : before.reporter.Grows after.reporter)
    (hhonoured : before.reporter.Counts → after.reporter.report.totalErrors = 0 →
      ∀ due ∈ dues, due.Honoured after.tree)
    (hsilent : ∀ floor : ScopeTree, (∀ due ∈ dues, due.Honoured floor) →
      (∀ node, .operation node ∉ dues) → after.reporter = before.reporter) :
    Accounts dues before after := by
  have hname : ∀ id, after.tree.name id = before.tree.name id :=
    fun id => by rw [ScopeTree.name, ScopeTree.name, hnames]
  refine ⟨hdemands, fun id _ => ?_, fun id node hnode => ?_, hreporter, hhonoured,
    fun floor _ => hsilent floor⟩
  · rw [hname id, hdues id]
    rfl
  · rw [hname id, hdues id]
    exact ⟨hnode, (Bool.or_false _).symm⟩

/-- Nothing is asked for, and nothing happens to names. -/
theorem nothing (hnames : after.tree.names = before.tree.names)
    (hdemands : demandsOf after.trace = demandsOf before.trace)
    (hreporter : after.reporter = before.reporter) : Accounts [] before after :=
  still hnames (fun _ => rfl) hdemands (hreporter ▸ .refl _) (fun _ _ => by simp)
    fun _ _ _ => hreporter

theorem trans (h : Accounts first before middle) (h' : Accounts second middle after) :
    Accounts (first ++ second) before after := by
  have hon : ∀ id, duesOn (first ++ second) id = duesOn first id ++ duesOn second id :=
    fun id => List.filterMap_append
  refine ⟨?_, fun id hid => ?_, fun id node hid => ?_, h.reporter.trans h'.reporter,
    fun hcounts hclean due hdue => ?_, fun floor hbounds hhonoured hoperation => ?_⟩
  · rw [h'.demands, h.demands, List.filterMap_append, List.reverse_append, List.append_assoc]
  · rw [hon, NameRecord.afterDemands_append, ← h.unbound id hid]
    exact h'.unbound id ((h.definition? id).trans hid)
  · obtain ⟨hmiddle, hneeded⟩ := h.bound id node hid
    obtain ⟨hafter, hneeded'⟩ := h'.bound id node hmiddle
    rw [hon, List.any_append, ← Bool.or_assoc, ← hneeded]
    exact ⟨hafter, hneeded'⟩
  · have hmiddle : middle.reporter.report.totalErrors = 0 :=
      h'.reporter.clean hclean
    rcases List.mem_append.mp hdue with hfirst | hsecond
    · exact h'.honoured_of (h.honoured hcounts hmiddle due hfirst)
    · exact h'.honoured (h.reporter.counts hcounts) hclean due hsecond
  · have hfirst := fun due hdue => hhonoured due (List.mem_append_left second hdue)
    have hsecond := fun due hdue => hhonoured due (List.mem_append_right first hdue)
    have hmiddle := h.silent floor hbounds hfirst fun node hnode =>
      hoperation node (List.mem_append_left second hnode)
    rw [← hmiddle]
    exact h'.silent floor (h.bounds hbounds hfirst) hsecond fun node hnode =>
      hoperation node (List.mem_append_right first hnode)

theorem trans_nothing (h : Accounts dues before middle) (h' : Accounts [] middle after) :
    Accounts dues before after := by
  have hboth := h.trans h'
  rwa [List.append_nil] at hboth

end Accounts

/-! ## The dues of a name -/

/-- What a demand comes to, once it gets to a record. -/
def duesFrom (base : ScopeTree) (again : NodeId → Kinds → Bool → List Due) (id : NameId)
    (demanded : Kinds) (unbox : Bool) : List Due :=
  .record id demanded unbox ::
    match (base.name id).origin with
    | .delegated source =>
        if _h : source.index < id.index then duesFrom base again source demanded unbox else []
    | .bound node _ => again node demanded unbox
    | _ => []
termination_by id.index

/-- What a demand on a name comes to. -/
def duesOfName (base : ScopeTree) (again : NodeId → Kinds → Bool → List Due) (id : NameId)
    (demanded : Kinds) (unbox : Bool) : List Due :=
  .name id demanded unbox :: duesFrom base again id demanded unbox

theorem duesFrom_of_delegated {base : ScopeTree} (hformed : base.Formed)
    {again : NodeId → Kinds → Bool → List Due} {id source : NameId}
    (h : (base.name id).origin = .delegated source) (demanded : Kinds) (unbox : Bool) :
    duesFrom base again id demanded unbox =
      .record id demanded unbox :: duesFrom base again source demanded unbox := by
  have hlt := (hformed.source id source (by rw [h]; rfl)).1
  rw [duesFrom, h]
  exact congrArg _ (dif_pos hlt)

theorem duesFrom_of_bound {base : ScopeTree} {again : NodeId → Kinds → Bool → List Due}
    {id : NameId} {node : NodeId} {kinds : Kinds} (h : (base.name id).origin = .bound node kinds)
    (demanded : Kinds) (unbox : Bool) :
    duesFrom base again id demanded unbox =
      .record id demanded unbox :: again node demanded unbox := by
  rw [duesFrom, h]

section Steps

variable {session : Session Progress}

theorem accounts_noting {event : Event} (h : event.demand? = none) (session : Session Progress) :
    Accounts [] session (session.noting event) :=
  .nothing rfl (List.filterMap_cons_none h) rfl

theorem accounts_asking (id : NameId) (demanded : Kinds) (unbox : Bool)
    (session : Session Progress) :
    Accounts [.name id demanded unbox] session (session.noting (.asked id demanded unbox)) :=
  .still rfl (fun _ => rfl) rfl (.refl _) (fun _ _ due hdue => by
    rw [List.mem_singleton.mp hdue]
    trivial) fun _ _ _ => rfl

theorem accounts_leaving (session : Session Progress) (node : NodeId) (proven : Kinds) :
    Accounts [] session (leaving session node proven) :=
  .nothing rfl rfl rfl

/-- What a definition proves is not accounted for. -/
theorem accounts_proving {id : NameId} {node : NodeId} {kinds : Kinds}
    (h : (session.tree.name id).origin = .bound node kinds) (proven : Kinds) :
    Accounts [] session (session.proving id proven) := by
  have hself : (session.proving id proven).tree.name id =
      (session.tree.name id).afterProof proven := ScopeTree.name_modifyName_self _ _ rfl
  have hother : ∀ other, id ≠ other →
      (session.proving id proven).tree.name other = session.tree.name other :=
    fun _ hne => ScopeTree.name_modifyName_of_ne _ hne _
  refine ⟨rfl, fun other hfree => ?_, fun other definition hbound => ?_, .refl _,
    fun _ _ => by simp, fun _ _ _ _ => rfl⟩
  · refine hother other ?_
    rintro rfl
    rw [h] at hfree
    cases hfree
  · by_cases heq : id = other
    · subst heq
      rw [hself, NameRecord.afterProof, h]
      rw [h] at hbound
      exact ⟨hbound, (Bool.or_false _).symm⟩
    · rw [hother other heq]
      exact ⟨hbound, (Bool.or_false _).symm⟩

/-- A demand gets to a record, and a conflict is reported if it is refused. -/
theorem accounts_demanding {id : NameId} {demanded : Kinds} (unbox : Bool) {reporter : Reporter}
    (hreporter : session.reporter.Grows reporter)
    (hclean : session.reporter.Counts → reporter.report.totalErrors = 0 →
      ∀ known, (session.tree.name id).origin.answer demanded ≠ .refused known)
    (hsilent : (∀ known, (session.tree.name id).origin.answer demanded ≠ .refused known) →
      reporter = session.reporter) :
    Accounts [.record id demanded unbox] session
      ((session.demanding id demanded unbox).reporting reporter) := by
  have hself : (session.demanding id demanded unbox).tree.name id =
      (session.tree.name id).afterDemand demanded unbox :=
    ScopeTree.name_modifyName_self _ _ rfl
  have hother : ∀ other, id ≠ other →
      (session.demanding id demanded unbox).tree.name other = session.tree.name other :=
    fun _ hne => ScopeTree.name_modifyName_of_ne _ hne _
  have hon : duesOn [.record id demanded unbox] id = [(demanded, unbox)] := by
    simp [duesOn, Due.on?]
  have hoff : ∀ other, id ≠ other → duesOn [.record id demanded unbox] other = [] := by
    intro other hne
    simp [duesOn, Due.on?, hne]
  refine ⟨rfl, fun other hfree => ?unbound, fun other node hbound => ?bound, hreporter,
    fun hcounts hnothing due hdue => ?honoured, fun floor hbounds hhonoured _ => hsilent ?silent⟩
  case unbound =>
    change (session.demanding id demanded unbox).tree.name other = _
    by_cases heq : id = other
    · subst heq
      rw [hself, hon]
      rfl
    · rw [hother other heq, hoff other heq]
      rfl
  case bound =>
    change ((session.demanding id demanded unbox).tree.name other).origin.definition? = _ ∧
      ((session.demanding id demanded unbox).tree.name other).mustUnbox = _
    by_cases heq : id = other
    · subst heq
      have hlive := NameRecord.isJunk_of_definition? hbound
      rw [hself, hon, NameRecord.origin_afterDemand, Origin.definition?_narrow,
        NameRecord.mustUnbox_afterDemand, hlive]
      exact ⟨hbound, by simp⟩
    · rw [hother other heq, hoff other heq]
      exact ⟨hbound, (Bool.or_false _).symm⟩
  case honoured =>
    rw [List.mem_singleton.mp hdue]
    intro _
    change ((session.demanding id demanded unbox).tree.name id).origin.Met demanded
    rw [hself, NameRecord.origin_afterDemand]
    exact Origin.met_narrow (hclean hcounts hnothing)
  case silent =>
    cases hbound : (session.tree.name id).origin.definition? with
    -- what is known lies above the floor, and so meets whatever the floor honours
    | none =>
        have hnarrows := hbounds.origin id hbound
        exact (Origin.narrows_of_met hnarrows hbound
          (hhonoured _ (List.mem_singleton_self _) (hnarrows.definition?.trans hbound))
          (hbounds.known id)).2
    | some node =>
        obtain ⟨kinds, horigin⟩ := Origin.definition?_eq_some_iff.mp hbound
        simp [horigin, Origin.answer]

end Steps

/-- What a definer is asked for accounts for what it does. -/
def Accountant (layout : Layout) (base : Session Progress) (definer : Definer Progress)
    (again : NodeId → Kinds → Bool → List Due) : Prop :=
  ∀ node demanded unbox session, Keeps layout base session →
    Accounts (again node demanded unbox) session ((definer node demanded unbox).run session).2

section Names

variable {layout : Layout} {base session : Session Progress} {definer : Definer Progress}
  {again : NodeId → Kinds → Bool → List Due} (hkeeper : Keeper layout definer)
  (hagain : Accountant layout base definer again)
include hkeeper hagain

theorem follow_accounts (hbase : Steady layout base) (id : NameId)
    (hid : id.index < base.tree.names.size) (demanded : Kinds) (unbox : Bool)
    (h : Keeps layout base session) :
    Accounts (duesFrom base.tree again id demanded unbox) session
      ((follow definer id demanded unbox).run session).2 := by
  have hfollows := follows_follow definer id demanded unbox h.steady.formed
  generalize (follow definer id demanded unbox).run session = followed at hfollows ⊢
  -- nothing is reported unless the demand is refused
  have haccepted : ∀ {id : NameId} {session : Session Progress},
      (∀ known, (session.tree.name id).origin.answer demanded ≠ .refused known) →
        Accounts [.record id demanded unbox] session (session.demanding id demanded unbox) :=
    fun hagrees => accounts_demanding unbox (.refl _) (fun _ _ => hagrees) fun _ => rfl
  -- a demand that goes no further is due to the record alone
  have hends : ∀ {id : NameId} {session : Session Progress}, id.index < base.tree.names.size →
      Keeps layout base session →
      (∀ node, (session.tree.name id).origin.answer demanded ≠ .define node) →
      (∀ source, (session.tree.name id).origin.answer demanded ≠ .passOn source) →
        duesFrom base.tree again id demanded unbox = [.record id demanded unbox] := by
    intro id session hid h hdefine hpassOn
    have hnarrows := (h.evolves.grows.name id hid).origin
    generalize (session.tree.name id).origin = new at hnarrows hdefine hpassOn
    rw [duesFrom]
    generalize (base.tree.name id).origin = old at hnarrows
    cases hnarrows with
    | bound => exact absurd rfl (hdefine _)
    | delegated => exact absurd rfl (hpassOn _)
    | _ => rfl
  induction hfollows with
  | settled id hanswer =>
      rw [hends hid h (by simp [hanswer]) (by simp [hanswer])]
      exact haccepted (by simp [hanswer])
  | @refused id session known hanswer =>
      rw [hends hid h (by simp [hanswer]) (by simp [hanswer])]
      refine accounts_demanding unbox (Reporter.grows_push ..) (fun hcounts hclean => ?_)
        fun hagrees => absurd hanswer (hagrees known)
      exact absurd hclean (Reporter.totalErrors_push_ne_zero hcounts _)
  | delegated id source horigin _ ih =>
      have hbefore := (h.evolves.grows.name id hid).origin.delegated_iff.mp horigin
      have hlt := (hbase.formed.source id source (by rw [hbefore]; rfl)).1
      rw [duesFrom_of_delegated hbase.formed hbefore]
      exact (haccepted (by simp [horigin, Origin.answer])).trans
        (ih (Nat.lt_trans hlt hid) (h.trans (h.steady.demanding id demanded unbox)))
  | @bound id node session _ defined horigin hdefined =>
      obtain ⟨known, hbefore⟩ :=
        (h.evolves.grows.name id hid).origin.exists_bound_iff.mp ⟨_, horigin⟩
      have hdemanded := h.trans (h.steady.demanding id demanded unbox)
      have hnoted := hdemanded.trans (hdemanded.steady.noting (.defining node demanded unbox))
      have hkept := hnoted.trans (hdefined ▸ hkeeper node demanded unbox _ hnoted.steady)
      have hasked := ((haccepted (by simp [horigin, Origin.answer])).trans_nothing
        (accounts_noting rfl _)).trans (hagain node demanded unbox _ hnoted)
      rw [hdefined] at hasked
      obtain ⟨kinds', hstill⟩ :=
        (hkept.evolves.grows.name id hid).origin.exists_bound_iff.mpr ⟨known, hbefore⟩
      rw [duesFrom_of_bound hbefore]
      exact hasked.trans_nothing (accounts_proving hstill defined.1)

theorem ensure_accounts (hbase : Steady layout base) (id : NameId)
    (hid : id.index < base.tree.names.size) (demanded : Kinds) (unbox : Bool)
    (h : Keeps layout base session) :
    Accounts (duesOfName base.tree again id demanded unbox) session
      ((ensure definer id demanded unbox).run session).2 := by
  have hasked := h.trans (h.steady.noting (.asked id demanded unbox))
  have hfollowed := (accounts_asking id demanded unbox session).trans
    (follow_accounts hkeeper hagain hbase id hid demanded unbox hasked)
  rw [run_ensure]
  exact hfollowed.trans_nothing (accounts_noting rfl _)

end Names

/-! ## The dues of a node -/

/-- What the rule of an expression asks for. -/
def duesBy (base : Session Progress) (again : NodeId → Kinds → Bool → List Due) (demanded : Kinds)
    (unbox : Bool) (expr : Expr) : List Due :=
  match expr.way with
  | .leaf natural => [.leaf natural demanded]
  | .lookup _ =>
      match base.defs.resolved.find? expr.id with
      | some name => duesOfName base.tree again name demanded unbox
      | none => []
  | .coalesce primary fallback =>
      again fallback demanded unbox ++ again primary (demanded ∪ {.unit}) unbox
  | .choose consequent alternative =>
      again consequent demanded unbox ++ again alternative demanded unbox
  | .arithmetic left right =>
      again left .number true ++ (again right .number true ++ [.operation expr.id])
  | .enforce value kinds => again value kinds true ++ [.leaf kinds demanded]
  | .body node => again node demanded unbox

/-- What the evaluation of a node asks for. -/
def dues (layout : Layout) (base : Session Progress) :
    (depth : Nat) → (active : List NodeId) → NodeId → Kinds → Bool → List Due
  | 0, _, _, _, _ => []
  | depth + 1, active, id, demanded, unbox =>
      match layout.nodes.find? id with
      | none => []
      | some placement =>
          if id ∈ active then []
          else duesBy base (dues layout base depth (id :: active)) demanded unbox placement.expr

section Nodes

variable {layout : Layout} {base session : Session Progress}

theorem accounts_leaf (span : Span) (natural demanded : Kinds) (session : Session Progress) :
    Accounts [.leaf natural demanded] session ((leaf span natural demanded).run session).2 := by
  rw [run_leaf]
  split
  · next hmeets =>
    refine .still rfl (fun _ => rfl) rfl (.refl _) (fun _ _ due hdue => ?_) fun _ _ _ => rfl
    rw [List.mem_singleton.mp hdue]
    exact hmeets
  · next hnot =>
    refine .still rfl (fun _ => rfl) rfl (Reporter.grows_push ..) (fun hcounts hclean => ?_)
      fun floor hhonoured => ?_
    · exact absurd hclean (Reporter.totalErrors_push_ne_zero hcounts _)
    · exact absurd (hhonoured _ (List.mem_singleton_self _)) hnot

/-- Nothing is told of how an arithmetic operation is weighed. -/
theorem accounts_weighing (h : Steady layout session) {expr : Expr} {scope : ScopeId}
    {left right : NodeId} (hplaced : layout.nodes.find? expr.id = some ⟨expr, scope⟩)
    (hway : expr.way = .arithmetic left right) {natural : Kinds} (hnatural : natural ≠ ∅)
    (demanded : Kinds) (unbox : Bool) :
    Accounts [.operation expr.id] session
      (weighing scope expr.id natural demanded unbox expr.span session).2 := by
  have hweighed := weighed_weighing h.balanced hplaced hway hnatural demanded unbox expr.span
  have htrace : (weighing scope expr.id natural demanded unbox expr.span session).2.trace =
      session.trace := by
    unfold weighing
    rw [trace_ensureIntrinsic, trace_ensureIntrinsic]
  have hevolves := (ensureIntrinsic_evolves scope expr.id natural true expr.span h.formed).trans
    (ensureIntrinsic_evolves scope expr.id demanded unbox expr.span
      (ensureIntrinsic_evolves scope expr.id natural true expr.span h.formed).formed)
  refine .still hweighed.names (fun _ => rfl) (by rw [htrace]; rfl) hevolves.reporter
    (fun _ _ due hdue => ?_) fun _ _ hoperation => ?_
  · rw [List.mem_singleton.mp hdue]
    trivial
  · exact absurd (List.mem_singleton_self _) (hoperation expr.id)

theorem rule_accounts (hbase : Steady layout base) {again : Definer Progress}
    {duesAgain : NodeId → Kinds → Bool → List Due} (hkeeper : Keeper layout again)
    (hagain : Accountant layout base again duesAgain) (during : Definer Progress)
    (searching : List NodeId) (h : Keeps layout base session) {expr : Expr} {scope : ScopeId}
    (hplaced : layout.nodes.find? expr.id = some ⟨expr, scope⟩) (demanded : Kinds) (unbox : Bool) :
    Accounts (duesBy base duesAgain demanded unbox expr) session
      ((rule again during searching scope demanded unbox expr).run session).2 := by
  unfold duesBy
  cases hway : expr.way with
  | leaf natural =>
      simp only [run_rule, hway]
      exact accounts_leaf expr.span natural demanded session
  | lookup path =>
      obtain ⟨name, hname, -, hrun⟩ :=
        run_rule_of_steady h.steady again during searching hplaced hway demanded unbox
      rw [h.resolved] at hname
      rw [hrun, hname]
      exact ensure_accounts hkeeper hagain hbase name (hbase.known _ name hname) demanded unbox h
  | coalesce primary fallback =>
      simp only [run_rule, hway]
      have hfallback := h.trans (hkeeper fallback demanded unbox session h.steady)
      have hprimary := hagain primary (demanded ∪ {.unit}) unbox _ hfallback
      exact (hagain fallback demanded unbox session h).trans hprimary
  | choose consequent alternative =>
      simp only [run_rule, hway]
      have hconsequent := h.trans (hkeeper consequent demanded unbox session h.steady)
      exact (hagain consequent demanded unbox session h).trans
        (hagain alternative demanded unbox _ hconsequent)
  | arithmetic left right =>
      rw [run_rule_arithmetic again during searching hway]
      have hleft := h.trans (hkeeper left .number true session h.steady)
      have hright := hleft.trans (hkeeper right .number true _ hleft.steady)
      exact (hagain left .number true session h).trans ((hagain right .number true _ hleft).trans
        (accounts_weighing hright.steady hplaced hway (arithmeticKinds_ne_empty _ _) demanded unbox))
  | enforce value kinds =>
      simp only [run_rule, hway]
      exact (hagain value kinds true session h).trans (accounts_leaf expr.span kinds demanded _)
  | body node =>
      simp only [run_rule, hway]
      exact hagain node demanded unbox session h

/-- The dues of a node account for its evaluation. -/
theorem evaluate_accounts (hbase : Steady layout base) (depth : Nat)
    (active searching : List NodeId) :
    Accountant layout base (evaluate layout depth active searching)
      (dues layout base depth active) := by
  induction depth generalizing active searching with
  | zero => exact fun _ _ _ _ _ => .nothing rfl rfl rfl
  | succ depth ih =>
      intro id demanded unbox session h
      rw [run_evaluate_succ, dues]
      cases hplaced : layout.nodes.find? id with
      | none => exact .nothing rfl rfl rfl
      | some placement =>
          obtain ⟨rfl, -⟩ := hbase.balanced.placed id placement hplaced
          dsimp only
          split
          · exact accounts_noting rfl session
          · have hentered := h.trans (h.steady.noting (.entered placement.expr.id demanded))
            have hruled := rule_accounts hbase
              (evaluate_keeps layout depth (placement.expr.id :: active) searching)
              (ih (placement.expr.id :: active) searching)
              (evaluate layout depth (placement.expr.id :: active)
                (placement.expr.id :: searching)) searching hentered hplaced demanded unbox
            exact ((accounts_noting rfl session).trans hruled).trans_nothing (accounts_leaving ..)

end Nodes

/-! ## The dues of a unit -/

/-- What a single request comes to. -/
def duesOfAsk (layout : Layout) (base : Session Progress) : Ask → List Due
  | .node id kinds => dues layout base (depthOf layout) [] id kinds false
  | .definition value =>
      match layout.bindings.find? value with
      | some name =>
          duesOfName base.tree (dues layout base (depthOf layout) []) name .any false
      | none => dues layout base (depthOf layout) [] value .any false

/-- What demands come to. -/
def duesOfAll (layout : Layout) (base : Session Progress) (demands : List Demand) : List Due :=
  demands.flatMap fun demand => demand.asks.flatMap (duesOfAsk layout base)

section Demands

variable {layout : Layout} {base session : Session Progress}

theorem answer_accounts (hbase : Steady layout base) (h : Keeps layout base session) (ask : Ask) :
    Accounts (duesOfAsk layout base ask) session ((answer layout ask).run session).2 := by
  have hdefiner := evaluate_accounts hbase (depthOf layout) [] []
  cases ask with
  | node id kinds => exact hdefiner id kinds false session h
  | definition value =>
      unfold answer duesOfAsk
      dsimp only
      cases hbound : layout.bindings.find? value with
      | some name =>
          exact ensure_accounts (definer_keeps layout) hdefiner hbase name
            (hbase.bound value name hbound) .any false h
      | none => exact hdefiner value .any false session h

theorem forM_accounts {α : Type} {step : α → ScopeM Progress PUnit} {duesOf : α → List Due}
    (items : List α)
    (hkeeps : ∀ item (session : Session Progress), Steady layout session →
      Keeps layout session ((step item).run session).2)
    (hstep : ∀ item (session : Session Progress), Keeps layout base session →
      Accounts (duesOf item) session ((step item).run session).2)
    (h : Keeps layout base session) :
    Accounts (items.flatMap duesOf) session ((items.forM step).run session).2 := by
  induction items generalizing session with
  | nil => exact .nothing rfl rfl rfl
  | cons item rest ih =>
      rw [run_forM_cons]
      exact (hstep item session h).trans (ih (h.trans (hkeeps item session h.steady)))

theorem meet_accounts (hbase : Steady layout base) (h : Keeps layout base session)
    (demands : List Demand) :
    Accounts (duesOfAll layout base demands) session ((meet layout demands).run session).2 :=
  forM_accounts demands
    (fun demand _ hsteady => forM_keeps demand.asks hsteady fun ask _ hask => answer_keeps hask ask)
    (fun demand _ hdemand => forM_accounts demand.asks (fun ask _ hask => answer_keeps hask ask)
      (fun ask _ hask => answer_accounts hbase hask ask) hdemand) h

end Demands

end Evaluation

end FrameLang
