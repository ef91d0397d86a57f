import FrameLang.Proofs.Analysis.Evaluation
import FrameLang.Proofs.Scope.Ownership

/-!
# What evaluation has explored

A lookup drills down from one name to the next, and each name on the way is asked
to be a frame before its longer name is made.  Asking it may evaluate other nodes,
and these may look up the very same path.  So it has to be shown that a longer name
is never made twice, since the second one would take the place of the first, and
the first would no longer belong to any scope.

## Strategy

A node that has been left, or is under evaluation, is *handled*: to evaluate it
again finds nothing new.  This is because whatever its evaluation leads to is
handled as well (`Evaluation.Explored`), as in a depth-first search.  By the time
a longer name is made, the definition behind the shorter one has been asked, and
so it is handled (`Backed`).  What is asked after that is quiet: it makes no longer
names.
-/

namespace FrameLang

/-- The evaluation of a node has come to its end. -/
def Session.Left {σ : Type} (session : Session σ) (node : NodeId) : Prop :=
  ∃ proven, Event.left node proven ∈ session.trace

namespace Evaluation

open ScopeM

/-! ## Definitions -/

section Definitions

variable (layout : Layout) (active searching : List NodeId) (session : Session Progress)

/-- To evaluate a node again finds nothing new. -/
def Handled (node : NodeId) : Prop :=
  session.Left node ∨ node ∈ active ∨ layout.nodes.find? node = none

/-- The definition behind a name is handled, if there is one. -/
def Backed (name : NameId) : Prop :=
  ∀ node, session.tree.definition? name = some node → Handled layout active session node

/-- Whatever the evaluation of an expression leads to is handled. -/
structure Closed (expr : Expr) : Prop where
  heirs : ∀ heir ∈ expr.way.heirs, Handled layout active session heir
  meant : ∀ path name, expr.way = .lookup path →
    session.defs.resolved.find? expr.id = some name → Backed layout active session name
  pending : ∀ path, expr.way = .lookup path → session.defs.resolved.find? expr.id = none →
    expr.id ∈ searching

/-- A finding is about a lookup of the layout. -/
def Complaint (finding : Finding) : Prop :=
  ∃ id placement path, layout.nodes.find? id = some placement ∧
    placement.expr.way = .lookup path ∧
      session.tree.fault? (session.tree.chain placement.scope) path placement.expr.span =
        some finding

/-- What the meaning of a lookup tells about the scopes that it was made in. -/
structure Told (scope : ScopeId) (path : List String) (span : Span) (name : NameId) : Prop where
  faulty : ∀ finding, session.tree.fault? (session.tree.chain scope) path span = some finding →
    session.tree.isJunk name = true ∧ finding ∈ session.reporter.seen
  faultless : session.tree.fault? (session.tree.chain scope) path span = none →
    session.tree.isJunk name = false ∧ ∃ first rest id, path = first :: rest ∧
      session.tree.meaning? scope first = some (some id)

/-- What is true of a session while some nodes are under evaluation and some lookups are
being searched. -/
structure Explored : Prop where
  formed : session.tree.Formed
  placed : ∀ id placement, layout.nodes.find? id = some placement →
    placement.expr.id = id ∧ placement.scope.index < session.tree.scopes.size
  closed : ∀ id placement, session.Left id → layout.nodes.find? id = some placement →
    Closed layout active searching session placement.expr
  parents : ∀ id component child, session.tree.child? id component = some child →
    Backed layout active session id ∧ session.tree.definition? child = none
  unresolved : ∀ node ∈ searching, session.defs.resolved.find? node = none
  known : ∀ node name, session.defs.resolved.find? node = some name →
    name.index < session.tree.names.size
  owned : ∀ node name placement, session.defs.resolved.find? node = some name →
    layout.nodes.find? node = some placement →
      (session.tree.isJunk name = true ∧ 0 < session.reporter.report.totalErrors) ∨
        session.tree.Owned placement.scope name
  told : ∀ node name placement path, session.defs.resolved.find? node = some name →
    layout.nodes.find? node = some placement → placement.expr.way = .lookup path →
      Told session placement.scope path placement.expr.span name
  complaints : ∀ finding ∈ session.reporter.seen, finding.Scopal → Complaint layout session finding
  counts : session.reporter.Counts

end Definitions

/-- A session evolves, its tables are extended, and the meanings of lookups stay. -/
structure Advances (before after : Session Progress) : Prop where
  evolves : before.Evolves after
  extended : before.tree.Extends after.tree
  resolved : ∀ node name, before.defs.resolved.find? node = some name →
    after.defs.resolved.find? node = some name

/-- No longer names are made. -/
def Quiet (before after : Session Progress) : Prop :=
  ∀ id component, after.tree.child? id component = before.tree.child? id component

/-- A session evolves without exploring anything. -/
structure Plain (before after : Session Progress) : Prop where
  evolves : before.Evolves after
  extended : before.tree.Extends after.tree
  left : ∀ node, after.Left node ↔ before.Left node
  resolved : after.defs.resolved = before.defs.resolved
  quiet : Quiet before after
  unscopal : ∀ finding ∈ after.reporter.seen, finding.Scopal → finding ∈ before.reporter.seen

/-- Something is explored, up to a goal; once the goal is reached, to explore it again is
quiet. -/
structure Explores (layout : Layout) (active searching : List NodeId)
    (goal : Session Progress → Prop) (before after : Session Progress) : Prop where
  explored : Explored layout active searching after
  advances : Advances before after
  reached : goal after
  quiet : goal before → Quiet before after

/-- A definer whose demands explore nodes. -/
def Explorer (layout : Layout) (active searching : List NodeId) (definer : Definer Progress) :
    Prop :=
  ∀ node demanded unbox session, Explored layout active searching session →
    Explores layout active searching (fun session => Handled layout active session node) session
      ((definer node demanded unbox).run session).2

/-! ## Steps that explore nothing -/

theorem Advances.children {before after : Session Progress} (h : Advances before after) :
    before.tree.KeepsChildren after.tree :=
  fun _ _ _ hchild => h.extended.child? hchild

theorem Advances.trans {first second third : Session Progress} (h : Advances first second)
    (h' : Advances second third) : Advances first third :=
  ⟨h.evolves.trans h'.evolves, h.extended.trans h'.extended,
    fun node name hname => h'.resolved _ _ (h.resolved node name hname)⟩

theorem unscopal_conflictingName {error : Diagnostic} (hcode : error.code = .conflictingName) :
    ¬ error.finding.Scopal := by
  rintro (hscopal | hscopal)
  · cases hcode.symm.trans hscopal
  · cases hcode.symm.trans hscopal

theorem unscopal_conflictingExpression {error : Diagnostic}
    (hcode : error.code = .conflictingExpression) : ¬ error.finding.Scopal := by
  rintro (hscopal | hscopal)
  · cases hcode.symm.trans hscopal
  · cases hcode.symm.trans hscopal

namespace Plain

variable {session first second third : Session Progress}

theorem refl (h : session.tree.Formed) : Plain session session :=
  ⟨.refl h, .refl _, fun _ => .rfl, rfl, fun _ _ => rfl, fun _ hseen _ => hseen⟩

theorem trans (h : Plain first second) (h' : Plain second third) : Plain first third :=
  ⟨h.evolves.trans h'.evolves, h.extended.trans h'.extended,
    fun node => (h'.left node).trans (h.left node), h'.resolved.trans h.resolved,
    fun id component => (h'.quiet id component).trans (h.quiet id component),
    fun finding hseen hscopal => h.unscopal finding (h'.unscopal finding hseen hscopal) hscopal⟩

theorem advances (h : Plain first second) : Advances first second :=
  ⟨h.evolves, h.extended, fun node name hname => by rw [h.resolved, hname]⟩

theorem tree {tree : ScopeTree} (hevolves : session.Evolves (session.withTree tree))
    (hextended : session.tree.Extends tree)
    (hquiet : ∀ id component, tree.child? id component = session.tree.child? id component) :
    Plain session (session.withTree tree) :=
  ⟨hevolves, hextended, fun _ => .rfl, rfl, hquiet, fun _ hseen _ => hseen⟩

theorem noting (h : session.tree.Formed) (event : Event)
    (hevent : ∀ node proven, event ≠ .left node proven) : Plain session (session.noting event) := by
  refine ⟨.noting h event, .refl _, fun node => ?_, rfl, fun _ _ => rfl, fun _ hseen _ => hseen⟩
  constructor
  · rintro ⟨proven, hmem⟩
    rcases List.mem_cons.mp hmem with heq | hmem
    · exact absurd heq.symm (hevent node proven)
    · exact ⟨proven, hmem⟩
  · rintro ⟨proven, hmem⟩
    exact ⟨proven, List.mem_cons_of_mem _ hmem⟩

theorem reporting (h : session.tree.Formed) (error : Diagnostic)
    (hunscopal : ¬ error.finding.Scopal) :
    Plain session (session.reporting (session.reporter.push error)) := by
  refine ⟨.reporting h (Reporter.grows_push ..), .refl _, fun _ => .rfl, rfl, fun _ _ => rfl, ?_⟩
  intro finding hseen hscopal
  rcases Reporter.mem_seen_push.mp hseen with rfl | hseen
  · exact absurd hscopal hunscopal
  · exact hseen

theorem modifyName (h : session.tree.Formed) {id : NameId} {change : NameRecord → NameRecord}
    (hevolves : session.Evolves (session.withTree (session.tree.modifyName id change)))
    (hchildren : (change (session.tree.name id)).children = (session.tree.name id).children) :
    Plain session (session.withTree (session.tree.modifyName id change)) := by
  have hquiet : ∀ other component, (session.tree.modifyName id change).child? other component =
      session.tree.child? other component := by
    intro other component
    unfold ScopeTree.child?
    rw [ScopeTree.name_modifyName]
    split
    · next heq => rw [hchildren, heq.1]
    · rfl
  exact .tree hevolves (.of_names h hevolves.grows rfl (ScopeTree.size_names_modifyName ..) rfl hquiet)
    hquiet

theorem demanding (h : session.tree.Formed) (id : NameId) (demanded : Kinds) (unbox : Bool) :
    Plain session (session.demanding id demanded unbox) :=
  .modifyName h (.demanding h id demanded unbox) (NameRecord.children_afterDemand ..)

theorem proving (h : session.tree.Formed) (id : NameId) (proven : Kinds) :
    Plain session (session.proving id proven) :=
  .modifyName h (.proving h id proven) rfl

theorem setIntrinsic (h : session.tree.Formed) {scope : ScopeId} {node : NodeId}
    {entry : Intrinsic} (hkinds : ∀ old, (session.tree.scope scope).intrinsics.find? node = some old →
      entry.kinds ⊆ old.kinds) :
    Plain session (session.withTree (session.tree.setIntrinsic scope node entry)) :=
  .tree (.tree (h.setIntrinsic hkinds) (ScopeTree.grows_setIntrinsic hkinds))
    (.setIntrinsic h hkinds) fun _ _ => rfl

theorem ensureIntrinsic (h : session.tree.Formed) (scope : ScopeId) (node : NodeId)
    (demanded : Kinds) (unbox : Bool) (span : Span) :
    Plain session ((ScopeM.ensureIntrinsic scope node demanded unbox span).run session).2 := by
  -- an entry that is there already is the one that is narrowed
  have hentry : ∀ old, (session.tree.scope scope).intrinsics.find? node = some old →
      ((session.tree.scope scope).intrinsics.find? node).getD ⟨demanded, unbox⟩ = old := by
    intro old hold
    rw [hold]
    rfl
  rw [run_ensureIntrinsic]
  dsimp only
  split
  · refine .setIntrinsic h fun old hold => ?_
    rw [hentry old hold, Kinds.subset_iff]
    exact fun kind hkind => (Kinds.mem_inter.mp hkind).1
  · have hput := Plain.setIntrinsic h fun old hold =>
      show (((session.tree.scope scope).intrinsics.find? node).getD ⟨demanded, unbox⟩).kinds ⊆
        old.kinds by
          rw [hentry old hold, Kinds.subset_iff]
          exact fun _ hkind => hkind
    exact hput.trans (.reporting hput.evolves.formed _ (unscopal_conflictingExpression rfl))

theorem leaf (h : session.tree.Formed) (span : Span) (natural demanded : Kinds) :
    Plain session ((Evaluation.leaf span natural demanded).run session).2 := by
  rw [run_leaf]
  split
  · exact .refl h
  · exact .reporting h _ (unscopal_conflictingExpression rfl)

end Plain

/-! ## What has been explored stays explored -/

section Stays

variable {layout : Layout} {active searching : List NodeId} {before after : Session Progress}

theorem left_of_evolves (h : before.Evolves after) {node : NodeId} (hleft : before.Left node) :
    after.Left node := by
  obtain ⟨proven, hmem⟩ := hleft
  exact ⟨proven, h.trace.subset hmem⟩

theorem Handled.evolves (h : before.Evolves after) {node : NodeId}
    (hhandled : Handled layout active before node) : Handled layout active after node :=
  hhandled.imp_left (left_of_evolves h)

theorem Handled.mono {other : List NodeId} (hsubset : active ⊆ other) {node : NodeId}
    (hhandled : Handled layout active before node) : Handled layout other before node :=
  hhandled.imp_right (.imp_left fun hmem => hsubset hmem)

theorem Backed.evolves (hformed : before.tree.Formed) (h : before.Evolves after) {name : NameId}
    (hname : name.index < before.tree.names.size) (hbacked : Backed layout active before name) :
    Backed layout active after name := by
  intro node hnode
  rw [h.grows.definition? hformed hname] at hnode
  exact (hbacked node hnode).evolves h

theorem Backed.mono {other : List NodeId} (hsubset : active ⊆ other) {name : NameId}
    (hbacked : Backed layout active before name) : Backed layout other before name :=
  fun node hnode => (hbacked node hnode).mono hsubset

theorem backed_of_definition?_eq_none {name : NameId}
    (h : before.tree.definition? name = none) : Backed layout active before name :=
  fun _ hnode => by cases h.symm.trans hnode

theorem Closed.mono {other : List NodeId} (hsubset : active ⊆ other) {expr : Expr}
    (hclosed : Closed layout active searching before expr) :
    Closed layout other searching before expr :=
  ⟨fun heir hheir => (hclosed.heirs heir hheir).mono hsubset,
    fun path name hway hname => (hclosed.meant path name hway hname).mono hsubset,
    hclosed.pending⟩

theorem Explored.mono {other : List NodeId} (hsubset : active ⊆ other)
    (h : Explored layout active searching before) : Explored layout other searching before :=
  ⟨h.formed, h.placed, fun id placement hleft hid => (h.closed id placement hleft hid).mono hsubset,
    fun id component child hchild => (h.parents id component child hchild).imp_left
      fun hbacked => hbacked.mono hsubset,
    h.unresolved, h.known, h.owned, h.told, h.complaints, h.counts⟩

/-- As long as no meanings are found, what is closed stays closed. -/
theorem Closed.evolves (h : Explored layout active searching before) (hevolves : before.Evolves after)
    (hresolved : after.defs.resolved = before.defs.resolved) {expr : Expr}
    (hclosed : Closed layout active searching before expr) :
    Closed layout active searching after expr := by
  refine ⟨fun heir hheir => (hclosed.heirs heir hheir).evolves hevolves, ?_, ?_⟩
  · intro path name hway hname
    rw [hresolved] at hname
    exact (hclosed.meant path name hway hname).evolves h.formed hevolves (h.known _ _ hname)
  · rw [hresolved]
    exact hclosed.pending

theorem Advances.fault? (h : Advances before after) {scope : ScopeId}
    (hscope : scope.index < before.tree.scopes.size) (path : List String) (span : Span) :
    after.tree.fault? (after.tree.chain scope) path span =
      before.tree.fault? (before.tree.chain scope) path span :=
  h.extended.fault? hscope path span

/-- What is wrong with a lookup stays wrong. -/
theorem Complaint.advances (h : Explored layout active searching before)
    (hadvances : Advances before after) {finding : Finding}
    (hcomplaint : Complaint layout before finding) : Complaint layout after finding := by
  obtain ⟨id, placement, path, hid, hway, hfault⟩ := hcomplaint
  refine ⟨id, placement, path, hid, hway, ?_⟩
  rw [hadvances.fault? (h.placed id placement hid).2, hfault]

theorem Told.advances (hadvances : Advances before after) {scope : ScopeId} {path : List String}
    {span : Span} {name : NameId} (hscope : scope.index < before.tree.scopes.size)
    (hname : name.index < before.tree.names.size) (h : Told before scope path span name) :
    Told after scope path span name := by
  have hevolves := hadvances.evolves
  constructor
  · intro finding hfault
    rw [hadvances.fault? hscope] at hfault
    obtain ⟨hjunk, hseen⟩ := h.faulty finding hfault
    exact ⟨(hevolves.grows.isJunk hname).trans hjunk, hevolves.reporter.seen hseen⟩
  · intro hfault
    rw [hadvances.fault? hscope] at hfault
    obtain ⟨hlive, first, rest, id, hpath, hmeaning⟩ := h.faultless hfault
    exact ⟨hevolves.grows.not_junk hlive, first, rest, id, hpath, hevolves.grows.meaning? hmeaning⟩

/-- What has been explored stays explored while nothing is left and no meanings are found, if
the new children belong to names that are backed, and new findings to lookups. -/
theorem Explored.advances (h : Explored layout active searching before)
    (hadvances : Advances before after) (hleft : ∀ node, after.Left node → before.Left node)
    (hresolved : after.defs.resolved = before.defs.resolved)
    (hparents : ∀ id component child, after.tree.child? id component = some child →
      before.tree.child? id component = some child ∨
        (Backed layout active after id ∧ after.tree.definition? child = none))
    (hcomplaints : ∀ finding ∈ after.reporter.seen, finding.Scopal →
      finding ∈ before.reporter.seen ∨ Complaint layout before finding) :
    Explored layout active searching after where
  formed := hadvances.evolves.formed
  placed id placement hid := by
    obtain ⟨hexpr, hscope⟩ := h.placed id placement hid
    exact ⟨hexpr, Nat.lt_of_lt_of_le hscope hadvances.evolves.grows.size_scopes⟩
  closed id placement hid hplacement :=
    (h.closed id placement (hleft id hid) hplacement).evolves h hadvances.evolves hresolved
  parents id component child hchild := by
    rcases hparents id component child hchild with hchild | hnew
    · obtain ⟨hbacked, hnone⟩ := h.parents id component child hchild
      obtain ⟨-, hsize, -⟩ := h.formed.child id component child hchild
      refine ⟨hbacked.evolves h.formed hadvances.evolves (ScopeTree.lt_size_of_child? hchild), ?_⟩
      rw [hadvances.evolves.grows.definition? h.formed hsize, hnone]
    · exact hnew
  unresolved := hresolved ▸ h.unresolved
  known node name hname := by
    rw [hresolved] at hname
    exact Nat.lt_of_lt_of_le (h.known node name hname) hadvances.evolves.grows.size_names
  owned node name placement hname hplacement := by
    have hevolves := hadvances.evolves
    rw [hresolved] at hname
    rcases h.owned node name placement hname hplacement with ⟨hjunk, herrors⟩ | howned
    · exact .inl ⟨(hevolves.grows.isJunk (h.known node name hname)).trans hjunk,
        Nat.lt_of_lt_of_le herrors hevolves.reporter.errors⟩
    · exact .inr (howned.grows hevolves.grows hadvances.children)
  told node name placement path hname hplacement hway := by
    rw [hresolved] at hname
    exact (h.told node name placement path hname hplacement hway).advances hadvances
      (h.placed node placement hplacement).2 (h.known node name hname)
  complaints finding hseen hscopal := by
    rcases hcomplaints finding hseen hscopal with hseen | hcomplaint
    · exact (h.complaints finding hseen hscopal).advances h hadvances
    · exact hcomplaint.advances h hadvances
  counts := hadvances.evolves.reporter.counts h.counts

theorem Explored.plain (h : Explored layout active searching before) (hplain : Plain before after) :
    Explored layout active searching after :=
  h.advances hplain.advances (fun node => (hplain.left node).mp) hplain.resolved
    (fun id component _ hchild => .inl ((hplain.quiet id component).symm.trans hchild))
    fun finding hseen hscopal => .inl (hplain.unscopal finding hseen hscopal)

end Stays

/-! ## Demands -/

section Demands

variable {layout : Layout} {active searching : List NodeId}

namespace Explores

variable {goal goal' : Session Progress → Prop} {first second third : Session Progress}

theorem of_plain (h : Explored layout active searching first) (hplain : Plain first second)
    (hgoal : goal second) : Explores layout active searching goal first second :=
  ⟨h.plain hplain, hplain.advances, hgoal, fun _ => hplain.quiet⟩

theorem after_plain (h : Explores layout active searching goal second third)
    (hplain : Plain first second) (hgoal : goal first → goal second) :
    Explores layout active searching goal first third :=
  ⟨h.explored, hplain.advances.trans h.advances, h.reached,
    fun hfirst id component =>
      (h.quiet (hgoal hfirst) id component).trans (hplain.quiet id component)⟩

theorem then_plain (h : Explores layout active searching goal first second)
    (hplain : Plain second third) (hgoal : goal second → goal third) :
    Explores layout active searching goal first third :=
  ⟨h.explored.plain hplain, h.advances.trans hplain.advances, hgoal h.reached,
    fun hfirst id component =>
      (hplain.quiet id component).trans (h.quiet hfirst id component)⟩

theorem congr (h : Explores layout active searching goal first second)
    (hbefore : goal' first → goal first) (hafter : goal second → goal' second) :
    Explores layout active searching goal' first second :=
  ⟨h.explored, h.advances, hafter h.reached, fun hfirst => h.quiet (hbefore hfirst)⟩

end Explores

variable {definer : Definer Progress} (hdefiner : Explorer layout active searching definer)
include hdefiner

theorem follow_explores (id : NameId) (demanded : Kinds) (unbox : Bool)
    {session : Session Progress} (h : Explored layout active searching session)
    (hid : id.index < session.tree.names.size) :
    Explores layout active searching (fun session => Backed layout active session id) session
      ((follow definer id demanded unbox).run session).2 := by
  have hfollows := follows_follow definer id demanded unbox h.formed
  generalize (follow definer id demanded unbox).run session = followed at hfollows ⊢
  induction hfollows with
  | @settled id session proven hanswer =>
      have hplain := Plain.demanding h.formed id demanded unbox
      have hnone : session.tree.definition? id = none :=
        ScopeTree.definition?_of_not_handedOn demanded (by simp [hanswer]) (by simp [hanswer])
      refine .of_plain h hplain (backed_of_definition?_eq_none ?_)
      exact (hplain.evolves.grows.definition? h.formed hid).trans hnone
  | @refused id session known hanswer =>
      have hplain := Plain.demanding h.formed id demanded unbox
      have hnone : session.tree.definition? id = none :=
        ScopeTree.definition?_of_not_handedOn demanded (by simp [hanswer]) (by simp [hanswer])
      have hreported : Plain session ((session.demanding id demanded unbox).reporting
          (session.reporter.nameConflict (session.tree.spanOfName id)
            (session.tree.name id).path known demanded)) :=
        hplain.trans (.reporting (h.plain hplain).formed _ (unscopal_conflictingName rfl))
      refine .of_plain h hreported (backed_of_definition?_eq_none ?_)
      exact (hreported.evolves.grows.definition? h.formed hid).trans hnone
  | delegated id source horigin _ ih =>
      have hplain := Plain.demanding h.formed id demanded unbox
      have hlt := (h.formed.source id source (by rw [horigin]; rfl)).1
      have hsource := Nat.lt_trans hlt hid
      have hsame := ScopeTree.definition?_of_delegated h.formed horigin
      have hsize := Nat.lt_of_lt_of_le hsource hplain.evolves.grows.size_names
      have hfollowed := (ih (h.plain hplain) hsize).after_plain
        hplain fun hbacked => hbacked.evolves h.formed hplain.evolves hsource
      -- the name and the one outside are bound to the same definition
      refine hfollowed.congr (fun hbacked node hnode => hbacked node (hsame.trans hnode)) ?_
      intro hbacked node hnode
      have hevolves := hfollowed.advances.evolves
      refine hbacked node ?_
      rw [hevolves.grows.definition? h.formed hsource, ← hsame,
        ← hevolves.grows.definition? h.formed hid, hnode]
  | @bound id node _ _ defined horigin hdefined =>
      have hplain := Plain.demanding h.formed id demanded unbox
      have hnode := ScopeTree.definition?_of_bound horigin
      have hnoting := hplain.trans
        (.noting (h.plain hplain).formed (.defining node demanded unbox) (by simp))
      have hexplored := hdefined ▸ hdefiner node demanded unbox _ (h.plain hnoting)
      have hproving := Plain.proving hexplored.explored.formed id defined.1
      have hproven := hexplored.then_plain hproving
        fun hhandled => hhandled.evolves hproving.evolves
      refine (hproven.after_plain hnoting fun hhandled => hhandled.evolves hnoting.evolves).congr
        (fun hbacked => hbacked node hnode) ?_
      intro hhandled other hother
      rw [(hnoting.evolves.trans hproven.advances.evolves).grows.definition? h.formed hid,
        hnode] at hother
      exact Option.some.inj hother ▸ hhandled

theorem ensure_explores (id : NameId) (demanded : Kinds) (unbox : Bool)
    {session : Session Progress} (h : Explored layout active searching session)
    (hid : id.index < session.tree.names.size) :
    Explores layout active searching (fun session => Backed layout active session id) session
      ((ensure definer id demanded unbox).run session).2 := by
  have hasked := Plain.noting h.formed (.asked id demanded unbox) (by simp)
  have hfollowed := (follow_explores hdefiner id demanded unbox (h.plain hasked) hid).after_plain
    hasked fun hbacked => hbacked.evolves h.formed hasked.evolves hid
  have hsize := Nat.lt_of_lt_of_le hid hfollowed.advances.evolves.grows.size_names
  rw [run_ensure]
  refine hfollowed.then_plain (.noting hfollowed.explored.formed _ (by simp)) fun hbacked => ?_
  exact hbacked.evolves hfollowed.explored.formed
    (.noting hfollowed.explored.formed _) hsize

end Demands

/-! ## Longer names -/

section Children

variable {layout : Layout} {active searching : List NodeId}

/-- A name with a longer one is backed. -/
theorem backed_of_hasChild {session : Session Progress}
    (h : Explored layout active searching session) {id : NameId} {component : String}
    (hchild : session.tree.hasChild id component = true) : Backed layout active session id := by
  induction id using NameId.strongInduction with
  | step id ih =>
      cases hown : session.tree.child? id component with
      | some child => exact (h.parents id component child hown).1
      | none =>
          rw [ScopeTree.hasChild, hown, Option.isSome_none, Bool.false_or] at hchild
          cases horigin : (session.tree.name id).origin with
          | masked source mask =>
              exact backed_of_definition?_eq_none (ScopeTree.definition?_of_masked horigin)
          | delegated source =>
              have hlt := (h.formed.source id source (by rw [horigin]; rfl)).1
              rw [horigin] at hchild
              simp only [Origin.source?, hlt, dite_true] at hchild
              have hbacked := ih source hlt hchild
              intro node hnode
              rw [ScopeTree.definition?_of_delegated h.formed horigin] at hnode
              exact hbacked node hnode
          | _ =>
              rw [horigin] at hchild
              cases hchild

/-- What a run that leads to the child of a name does. -/
structure Leads (layout : Layout) (active searching : List NodeId) (before : Session Progress)
    (id : NameId) (component : String) (reached : NameId × Session Progress) : Prop where
  explored : Explored layout active searching reached.2
  advances : Advances before reached.2
  child? : reached.2.tree.child? id component = some reached.1
  elsewhere : ∀ other here, id.index < other.index →
    reached.2.tree.child? other here = before.tree.child? other here

variable {definer : Definer Progress}

theorem inheritedChild_leads (hexplorer : Explorer layout active searching definer)
    {source : NameId} {component : String} {session : Session Progress}
    (h : Explored layout active searching session)
    (hsource : source.index < session.tree.names.size)
    (hbacked : Backed layout active session source)
    (hcreate : ∀ session : Session Progress, Explored layout active searching session →
      source.index < session.tree.names.size → Backed layout active session source →
        session.tree.child? source component = none →
          Leads layout active searching session source component
            ((createChild definer source component).run session)) :
    Leads layout active searching session source component
      ((inheritedChild definer source component).run session) := by
  have hensured := ensure_explores hexplorer source {.frame} false h hsource
  have hquiet := hensured.quiet hbacked
  have hsize := Nat.lt_of_lt_of_le hsource hensured.advances.evolves.grows.size_names
  have hrun : (inheritedChild definer source component).run session =
      (childOf definer source component).run
        ((ensure definer source {.frame} false).run session).2 := rfl
  rw [hrun, run_childOf]
  cases hchild : ((ensure definer source {.frame} false).run session).2.tree.child? source
      component with
  | some child => exact ⟨hensured.explored, hensured.advances, hchild, fun _ _ _ => hquiet _ _⟩
  | none =>
      have hcreated := hcreate _ hensured.explored hsize hensured.reached hchild
      exact ⟨hcreated.explored, hensured.advances.trans hcreated.advances, hcreated.child?,
        fun other here hlt => (hcreated.elsewhere other here hlt).trans (hquiet _ _)⟩

/-- Where a new child of a name gets its value from, if not from a definition. -/
structure Inherits (layout : Layout) (active searching : List NodeId) (before : Session Progress)
    (id : NameId) (found : Origin × Session Progress) : Prop where
  explored : Explored layout active searching found.2
  advances : Advances before found.2
  elsewhere : ∀ other here, id.index ≤ other.index →
    found.2.tree.child? other here = before.tree.child? other here
  unbound : ∀ node kinds, found.1 ≠ .bound node kinds
  undefined : ∀ source, found.1 = .delegated source → found.2.tree.definition? source = none

theorem originOfChild_inherits (hexplorer : Explorer layout active searching definer) {id : NameId}
    (component : String) (hcreate : ∀ source : NameId, source.index < id.index →
      ∀ session : Session Progress, Explored layout active searching session →
        source.index < session.tree.names.size → Backed layout active session source →
          session.tree.child? source component = none →
            Leads layout active searching session source component
              ((createChild definer source component).run session))
    {session : Session Progress} (h : Explored layout active searching session)
    (hid : id.index < session.tree.names.size) (hbacked : Backed layout active session id) :
    Inherits layout active searching session id (originOfChild definer id component session) := by
  have hplain := Plain.refl h.formed
  have hown : ∀ origin : Origin, (∀ node kinds, origin ≠ .bound node kinds) →
      (∀ source, origin ≠ .delegated source) →
        Inherits layout active searching session id (origin, session) :=
    fun origin hunbound hfree => ⟨h, hplain.advances, fun _ _ _ => rfl, hunbound,
      fun source heq => absurd heq (hfree source)⟩
  unfold originOfChild
  cases horigin : (session.tree.name id).origin with
  | junk => exact hown .junk (by simp) (by simp)
  | free kinds => exact hown (.free .any) (by simp) (by simp)
  | replaced kinds => exact hown (.free .any) (by simp) (by simp)
  | bound node kinds => exact hown (.free .any) (by simp) (by simp)
  | masked source mask =>
      have hlt := (h.formed.source id source (by rw [horigin]; rfl)).1
      dsimp only
      split
      · next hchild =>
        have hleads := inheritedChild_leads hexplorer h (Nat.lt_trans hlt hid)
          (backed_of_hasChild h hchild.2) (hcreate source hlt)
        exact ⟨hleads.explored, hleads.advances,
          fun other here hle => hleads.elsewhere other here (Nat.lt_of_lt_of_le hlt hle),
          by simp, by simp⟩
      · exact hown (.free .any) (by simp) (by simp)
  | delegated source =>
      have hlt := (h.formed.source id source (by rw [horigin]; rfl)).1
      have hsource := Nat.lt_trans hlt hid
      have hsourcebacked : Backed layout active session source := fun node hnode =>
        hbacked node ((ScopeTree.definition?_of_delegated h.formed horigin).trans hnode)
      dsimp only
      rw [if_pos hlt]
      -- the source has been given the child, if it did not have one
      have hmade : ∀ made, made = (if session.tree.hasChild source component = true then session
          else ((createChild definer source component).run session).2) →
            Inherits layout active searching session id (.free .any, made) := by
        rintro made rfl
        split
        · exact hown (.free .any) (by simp) (by simp)
        · next hchild =>
          have hnone : session.tree.child? source component = none := by
            by_contra hsome
            refine hchild ?_
            rw [ScopeTree.hasChild, Option.isSome_iff_ne_none.mpr hsome, Bool.true_or]
          have hleads := hcreate source hlt session h hsource hsourcebacked hnone
          exact ⟨hleads.explored, hleads.advances,
            fun other here hle => hleads.elsewhere other here (Nat.lt_of_lt_of_le hlt hle),
            by simp, by simp⟩
      generalize (if session.tree.hasChild source component = true then session
          else ((createChild definer source component).run session).2) = made at hmade ⊢
      have hmade := hmade made rfl
      split
      · have hsize := Nat.lt_of_lt_of_le hsource hmade.advances.evolves.grows.size_names
        have hleads := inheritedChild_leads hexplorer hmade.explored hsize
          (hsourcebacked.evolves h.formed hmade.advances.evolves hsource) (hcreate source hlt)
        refine ⟨hleads.explored, hmade.advances.trans hleads.advances, ?_, by simp, ?_⟩
        · exact fun other here hle => (hleads.elsewhere other here
            (Nat.lt_of_lt_of_le hlt hle)).trans (hmade.elsewhere other here hle)
        · rintro inherited ⟨⟩
          exact (hleads.explored.parents source component _ hleads.child?).2
      · exact hmade

theorem addChild_explores {session : Session Progress} {id : NameId} {component : String}
    {record : NameRecord} {origin : Origin} (h : Explored layout active searching session)
    (hid : id.index < session.tree.names.size) (hbacked : Backed layout active session id)
    (hnew : session.tree.child? id component = none)
    (hevolves : session.Evolves (addChild session id component record origin))
    (hunbound : ∀ node kinds, origin ≠ .bound node kinds)
    (hundefined : ∀ source, origin = .delegated source → session.tree.definition? source = none) :
    Explored layout active searching (addChild session id component record origin) ∧
      Advances session (addChild session id component record origin) := by
  have hchild : ∀ other here, (addChild session id component record origin).tree.child? other here =
      if id = other ∧ component = here then some session.tree.nextName
      else session.tree.child? other here := child?_addChild hid component origin
  have hadvances : Advances session (addChild session id component record origin) :=
    ⟨hevolves, .step h.formed (.addChild hid hnew rfl), fun _ _ hname => hname⟩
  have horigin : ((addChild session id component record origin).tree.name
      session.tree.nextName).origin = origin := by
    have hne : id ≠ session.tree.nextName := by
      rintro rfl
      exact Nat.lt_irrefl _ hid
    rw [addChild, Session.tree_withTree, ScopeTree.addChild, ScopeTree.setChild,
      ScopeTree.name_recording, ScopeTree.name_modifyName_of_ne _ hne, ScopeTree.name_addName_self]
    rfl
  have hnone : (addChild session id component record origin).tree.definition?
      session.tree.nextName = none := by
    cases origin with
    | bound node kinds => exact absurd rfl (hunbound node kinds)
    | delegated source =>
        have hlt := (hevolves.formed.source _ source (by rw [horigin]; rfl)).1
        rw [ScopeTree.definition?_of_delegated hevolves.formed horigin,
          hevolves.grows.definition? h.formed hlt, hundefined source rfl]
    | _ => rw [ScopeTree.definition?, horigin]
  refine ⟨h.advances hadvances (fun _ hleft => hleft) rfl (fun other here child hother => ?_)
    fun _ hseen _ => .inl hseen, hadvances⟩
  rw [hchild] at hother
  split at hother
  · next heq =>
    obtain ⟨rfl, rfl⟩ := heq
    cases hother
    exact .inr ⟨hbacked.evolves h.formed hevolves hid, hnone⟩
  · exact .inl hother

variable (hsound : definer.Sound) (hexplorer : Explorer layout active searching definer)
include hsound hexplorer

/-- A longer name is made once the definition behind the name has been asked. -/
theorem createChild_leads (id : NameId) (component : String) {session : Session Progress}
    (h : Explored layout active searching session) (hid : id.index < session.tree.names.size)
    (hbacked : Backed layout active session id)
    (hnew : session.tree.child? id component = none) :
    Leads layout active searching session id component
      ((createChild definer id component).run session) := by
  induction id using NameId.strongInduction generalizing session with
  | step id ih =>
      have hfound := originOfChild_inherits hexplorer component
        (fun source hlt session h hsource hbacked hnew =>
          ih source hlt h hsource hbacked hnew) h hid hbacked
      obtain ⟨horigin, hfits, hjunk⟩ := originOfChild_evolves hsound component
        (fun source _ session h hsource => createChild_reaches hsound source component h hsource)
        h.formed hid
      have hsize := Nat.lt_of_lt_of_le hid horigin.grows.size_names
      have hrecord := horigin.grows.name id hid
      have hadded : (originOfChild definer id component session).2.Evolves
          (addChild (originOfChild definer id component session).2 id component
            (session.tree.name id) (originOfChild definer id component session).1) :=
        addChild_evolves horigin.formed hsize ⟨hrecord.path, hrecord.scope?⟩ hfits hjunk
      have hstill : (originOfChild definer id component session).2.tree.child? id component =
          none := (hfound.elsewhere id component (Nat.le_refl _)).trans hnew
      obtain ⟨hexplored, hadvances⟩ := addChild_explores hfound.explored hsize
        (hbacked.evolves h.formed horigin hid) hstill hadded hfound.unbound hfound.undefined
      rw [run_createChild]
      refine ⟨hexplored, hfound.advances.trans hadvances, ?_, ?_⟩
      · exact (child?_addChild hsize ..).trans (if_pos ⟨rfl, rfl⟩)
      · intro other here hlt
        have hne : ¬ (id = other ∧ component = here) := by
          rintro ⟨rfl, -⟩
          exact Nat.lt_irrefl _ hlt
        exact ((child?_addChild hsize ..).trans (if_neg hne)).trans
          (hfound.elsewhere other here (Nat.le_of_lt hlt))

theorem childOf_leads (id : NameId) (component : String) {session : Session Progress}
    (h : Explored layout active searching session) (hid : id.index < session.tree.names.size)
    (hbacked : Backed layout active session id) :
    Leads layout active searching session id component
      ((childOf definer id component).run session) := by
  rw [run_childOf]
  cases hchild : session.tree.child? id component with
  | some child => exact ⟨h, (Plain.refl h.formed).advances, hchild, fun _ _ _ => rfl⟩
  | none => exact createChild_leads hsound hexplorer id component h hid hbacked hchild

end Children

/-! ## Lookups -/

section Lookups

variable {layout : Layout} {active searching : List NodeId} {definer : Definer Progress}
  {session : Session Progress}

/-- No evaluation has come to its end. -/
def LeavesNothing (before after : Session Progress) : Prop :=
  ∀ node, after.Left node → before.Left node

theorem Plain.leavesNothing {before after : Session Progress} (h : Plain before after) :
    LeavesNothing before after := fun node => (h.left node).mp

/-- What drilling down from a name does. -/
structure Drills (layout : Layout) (active searching : List NodeId) (before : Session Progress)
    (id : NameId) (components : List String) (drilled : NameId × Session Progress) : Prop where
  explored : Explored layout active searching drilled.2
  advances : Advances before drilled.2
  owned : ∀ scope, before.tree.Owned scope id → drilled.2.tree.Owned scope drilled.1
  longer : components ≠ [] → drilled.2.tree.definition? drilled.1 = none
  left : components = [] → LeavesNothing before drilled.2

/-- What a lookup of a path in a scope does. -/
structure Finds (layout : Layout) (active searching : List NodeId) (before : Session Progress)
    (scope : ScopeId) (path : List String) (span : Span) (found : NameId × Session Progress) :
    Prop where
  explored : Explored layout active searching found.2
  advances : Advances before found.2
  owned : found.2.tree.isJunk found.1 = true ∨ found.2.tree.Owned scope found.1
  told : Told found.2 scope path span found.1
  longer : path.tail ≠ [] → found.2.tree.definition? found.1 = none
  left : path.tail = [] → LeavesNothing before found.2

variable {middle : Session Progress} {scope : ScopeId} {path : List String} {span : Span}

/-- The name of the first component is at hand, and drilling down from it has led somewhere. -/
theorem Drills.finds {id : NameId} {first : String} {rest : List String}
    {drilled : NameId × Session Progress}
    (h : Drills layout active searching middle id rest drilled)
    (hmeaning : middle.tree.meaning? scope first = some (some id))
    (hadvances : Advances session middle) (hleft : rest = [] → LeavesNothing session middle) :
    Finds layout active searching session scope (first :: rest) span drilled := by
  have howned := h.owned scope (.entry hmeaning)
  have hstill := h.advances.evolves.grows.meaning? hmeaning
  have hnearest : drilled.2.tree.nearest? (drilled.2.tree.chain scope) first = some (some id) := by
    rw [ScopeTree.chain, ScopeTree.nearest?_cons, hstill]
    rfl
  refine ⟨h.explored, hadvances.trans h.advances, .inr howned, ⟨?_, fun _ => ?_⟩, h.longer,
    fun hnil node hnode => hleft hnil node (h.left hnil node hnode)⟩
  · intro finding hfault
    rw [ScopeTree.fault?, hnearest, if_neg (by simp)] at hfault
    cases hfault
  · exact ⟨(howned.home h.explored.formed).1, first, rest, id, rfl, hstill⟩

/-- The lookup has gone wrong, and that has been reported. -/
theorem finds_junked (h : Explored layout active searching middle)
    (hadvances : Advances session middle)
    (hleft : path.tail = [] → LeavesNothing session middle)
    (hscope : scope.index < middle.tree.scopes.size) {finding : Finding}
    (hfault : middle.tree.fault? (middle.tree.chain scope) path span = some finding)
    (hseen : finding ∈ middle.reporter.seen) :
    Finds layout active searching session scope path span (junked middle) := by
  have hadded : Plain middle (junked middle).2 :=
    .tree (.tree (h.formed.addName (ScopeTree.fits_junk ..)) (ScopeTree.grows_addName ..))
      (.addJunk h.formed) (ScopeTree.child?_addName _ rfl)
  have hjunk : (junked middle).2.tree.isJunk (junked middle).1 = true := by
    rw [junked, Session.tree_withTree, ScopeTree.isJunk, ScopeTree.name_addName_self]
    rfl
  have hstill := (hadded.advances.fault? hscope path span).trans hfault
  refine ⟨h.plain hadded, hadvances.trans hadded.advances, .inl hjunk, ⟨?_, ?_⟩,
    fun _ => ScopeTree.definition?_of_isJunk hjunk,
    fun hnil node hnode => hleft hnil node (hadded.leavesNothing node hnode)⟩
  · intro other hother
    obtain rfl := Option.some.inj (hstill.symm.trans hother)
    exact ⟨hjunk, hseen⟩
  · exact fun hnone => by cases hstill.symm.trans hnone

/-- What is wrong with the lookup is reported. -/
theorem finds_refused (h : Explored layout active searching middle)
    (hadvances : Advances session middle)
    (hleft : path.tail = [] → LeavesNothing session middle)
    (hscope : scope.index < middle.tree.scopes.size) (error : Diagnostic)
    (hfault : middle.tree.fault? (middle.tree.chain scope) path span = some error.finding)
    (hcomplaint : Complaint layout middle error.finding) :
    Finds layout active searching session scope path span
      (junked (middle.reporting (middle.reporter.push error))) := by
  have hreported : Advances middle (middle.reporting (middle.reporter.push error)) :=
    ⟨.reporting h.formed (Reporter.grows_push ..), .refl _, fun _ _ hname => hname⟩
  have hexplored : Explored layout active searching
      (middle.reporting (middle.reporter.push error)) := by
    refine h.advances hreported (fun _ hnode => hnode) rfl (fun _ _ _ hchild => .inl hchild) ?_
    intro finding hseen _
    rcases Reporter.mem_seen_push.mp hseen with rfl | hseen
    · exact .inr hcomplaint
    · exact .inl hseen
  exact finds_junked hexplored (hadvances.trans hreported) hleft hscope hfault
    (Reporter.mem_seen_push.mpr (.inl rfl))

variable (hsound : definer.Sound) (hexplorer : Explorer layout active searching definer)
include hsound hexplorer

theorem drill_drills (components : List String) (id : NameId) {session : Session Progress}
    (h : Explored layout active searching session) (hid : id.index < session.tree.names.size) :
    Drills layout active searching session id components
      ((drill definer id components).run session) := by
  induction components generalizing id session with
  | nil =>
      have hplain := Plain.refl h.formed
      exact ⟨h, hplain.advances, fun _ howned => howned, fun hne => absurd rfl hne,
        fun _ => hplain.leavesNothing⟩
  | cons component rest ih =>
      have hensured := ensure_explores hexplorer id {.frame} false h hid
      have hsize := Nat.lt_of_lt_of_le hid hensured.advances.evolves.grows.size_names
      have hleads := childOf_leads hsound hexplorer id component hensured.explored hsize
        hensured.reached
      obtain ⟨-, hchild, -⟩ := hleads.explored.formed.child id component _ hleads.child?
      have hdrills := ih _ hleads.explored hchild
      have hadvances := hensured.advances.trans hleads.advances
      rw [run_drill_cons]
      refine ⟨hdrills.explored, hadvances.trans hdrills.advances, ?_, fun _ => ?_,
        fun hnil => by cases hnil⟩
      · intro scope howned
        have hstill := howned.grows hadvances.evolves.grows hadvances.children
        exact hdrills.owned scope (hstill.child hleads.child?)
      · cases rest with
        | nil => exact (hleads.explored.parents id component _ hleads.child?).2
        | cons => exact hdrills.longer (by simp)

/-- Drilling down from an entry of a scope. -/
theorem finds_drilled {id : NameId} {first : String} (rest : List String)
    (h : Explored layout active searching middle)
    (hmeaning : middle.tree.meaning? scope first = some (some id))
    (hadvances : Advances session middle) (hleft : rest = [] → LeavesNothing session middle) :
    Finds layout active searching session scope (first :: rest) span
      ((drill definer id rest).run middle) := by
  have hid := ScopeTree.lt_size_of_not_junk (h.formed.entry scope first id hmeaning).1
  exact (drill_drills hsound hexplorer rest id h hid).finds hmeaning hadvances hleft

omit hsound hexplorer in
/-- What comes of looking a path up further out, if it is done at all. -/
structure LooksAhead (layout : Layout) (active searching : List NodeId) (before : Session Progress)
    (here : ScopeId) (first : String) (rest : List String) (span : Span)
    (ahead : Bool × Session Progress) : Prop where
  explored : Explored layout active searching ahead.2
  advances : Advances before ahead.2
  left : rest = [] → LeavesNothing before ahead.2
  wrong : ahead.1 = true → ∃ finding, finding ∈ ahead.2.reporter.seen ∧
    ahead.2.tree.fault? (ahead.2.tree.chain here) (first :: rest) span = some finding

/-- A lookup along a chain, once the path has been looked up further out. -/
theorem lookupAlong_finds_of_ahead {first : String} {rest : List String}
    {here : ScopeId} {outer : List ScopeId} (h : Explored layout active searching session)
    (hhere : here.index < session.tree.scopes.size)
    (hchain : (session.tree.scope here).enclosing = outer)
    (hcomplaint : ∀ finding, session.tree.fault? (session.tree.chain here) (first :: rest) span =
      some finding → Complaint layout session finding)
    (hahead : session.tree.meaning? here first = none →
      LooksAhead layout active searching session here first rest span
        (lookedAhead definer first rest span here outer session)) :
    Finds layout active searching session here (first :: rest) span
      ((lookupAlong definer first rest span (here :: outer)).run session) := by
  have hrefl := Plain.refl h.formed
  -- a name that turns out to be forbidden is one that the lookup was made to find
  have hrefused : ∀ middle : Session Progress, Explored layout active searching middle →
      Advances session middle → ((first :: rest).tail = [] → LeavesNothing session middle) →
        middle.tree.nearest? (middle.tree.chain here) first = some none →
          Finds layout active searching session here (first :: rest) span
            (refused middle span first) := by
    intro middle hmiddle hadvances hleft hnearest
    have hsize := Nat.lt_of_lt_of_le hhere hadvances.evolves.grows.size_scopes
    have hfault : middle.tree.fault? (middle.tree.chain here) (first :: rest) span =
        some (.forbiddenName span first) := by
      rw [ScopeTree.fault?, if_pos hnearest]
    have hbefore := (hadvances.fault? hhere (first :: rest) span).symm.trans hfault
    exact finds_refused hmiddle hadvances hleft hsize _ hfault
      ((hcomplaint _ hbefore).advances h hadvances)
  rw [run_lookupAlong_cons]
  cases hmeaning : session.tree.meaning? here first with
  | some entry =>
      cases entry with
      | some id =>
          exact finds_drilled hsound hexplorer rest h hmeaning hrefl.advances
            fun _ => hrefl.leavesNothing
      | none =>
          refine hrefused session h hrefl.advances (fun _ => hrefl.leavesNothing) ?_
          rw [ScopeTree.chain, ScopeTree.nearest?_cons, hmeaning]
          rfl
  | none =>
      obtain ⟨hexplored, hadvances, hleft, hwrong⟩ := hahead hmeaning
      generalize lookedAhead definer first rest span here outer session = ahead at *
      have hsize := Nat.lt_of_lt_of_le hhere hadvances.evolves.grows.size_scopes
      dsimp only
      split
      · next hjunk =>
        obtain ⟨finding, hseen, hfault⟩ := hwrong hjunk
        exact finds_junked hexplored hadvances hleft hsize hfault hseen
      · have hstill : (ahead.2.tree.scope here).enclosing = outer :=
          (hadvances.evolves.grows.scope here hhere).enclosing.trans hchain
        have hstillchain : ahead.2.tree.IsChain (here :: outer) := fun _ => hstill
        obtain ⟨found, after, hback, hlooked⟩ := lookBack_sound first hexplored.formed hstillchain
        have hstep : Plain ahead.2 (ahead.2.withTree after) :=
          .tree (.tree hlooked.formed hlooked.grows) hlooked.extended hlooked.children
        have hexplored := hexplored.plain hstep
        have hadvances := hadvances.trans hstep.advances
        have hleft := fun hnil node hnode => hleft hnil node (hstep.leavesNothing node hnode)
        have hafter : after.chain here = here :: outer := by
          rw [ScopeTree.chain, (hlooked.grows.scope here hsize).enclosing, hstill]
        rw [hback]
        cases found with
        | name id =>
            obtain ⟨scope, others, hscope, hentry⟩ := hlooked.entry id rfl
            obtain ⟨rfl, -⟩ := List.cons.inj hscope
            exact finds_drilled hsound hexplorer rest hexplored hentry hadvances hleft
        | forbidden =>
            exact hrefused _ hexplored hadvances hleft (hafter ▸ hlooked.forbidden rfl)
        | absent =>
            obtain ⟨hnew, houter⟩ := ScopeTree.nearest?_cons_eq_none.mp (hlooked.absent rfl)
            obtain ⟨hdefined, -⟩ := define_evolves hexplored.formed hnew
            have hin : here.index < after.scopes.size :=
              Nat.lt_of_lt_of_le hsize hlooked.grows.size_scopes
            have hentitled : after.Entitled here first (.free .any) := by
              refine .free ?_
              rw [(hlooked.grows.scope here hsize).enclosing, hstill, houter]
            have hdefine : Plain (ahead.2.withTree after) ((ahead.2.withTree after).withTree
                (after.define here first (.free .any))) :=
              .tree hdefined (.step hlooked.formed (.define hin hnew hentitled))
                (ScopeTree.child?_define _ _ _ _)
            have hentry : (after.define here first (.free .any)).meaning? here first =
                some (some after.nextName) :=
              (ScopeTree.meaning?_define hin ..).trans (if_pos ⟨rfl, rfl⟩)
            exact finds_drilled hsound hexplorer rest (hexplored.plain hdefine) hentry
              (hadvances.trans hdefine.advances)
              fun hnil node hnode => hleft hnil node (hdefine.leavesNothing node hnode)

omit hsound hexplorer in
/-- A scope that says nothing about a name leaves it to the scopes around it whether the name is
forbidden. -/
theorem fault?_of_enclosing {tree : ScopeTree} (hformed : tree.Formed) {here next : ScopeId}
    {others : List ScopeId} (hchain : (tree.scope here).enclosing = next :: others)
    {first : String} (hmeaning : tree.meaning? here first = none) (rest : List String)
    (span : Span) :
    tree.fault? (tree.chain here) (first :: rest) span =
      tree.fault? (tree.chain next) (first :: rest) span := by
  have hnext := (hformed.enclosing here next others hchain).2
  have hnearest : tree.nearest? (tree.chain here) first =
      tree.nearest? (tree.chain next) first := by
    rw [ScopeTree.chain, ScopeTree.nearest?_cons, hmeaning, hchain, ScopeTree.chain, hnext]
    rfl
  rw [ScopeTree.fault?, ScopeTree.fault?, hnearest]

theorem lookupAlong_finds (first : String) (rest : List String) (span : Span) {here : ScopeId}
    {outer : List ScopeId} {session : Session Progress}
    (h : Explored layout active searching session)
    (hhere : here.index < session.tree.scopes.size)
    (hchain : (session.tree.scope here).enclosing = outer)
    (hcomplaint : ∀ finding, session.tree.fault? (session.tree.chain here) (first :: rest) span =
      some finding → Complaint layout session finding) :
    Finds layout active searching session here (first :: rest) span
      ((lookupAlong definer first rest span (here :: outer)).run session) := by
  have hrefl := Plain.refl h.formed
  have hstays : ∀ here, LooksAhead layout active searching session here first rest span
      (false, session) :=
    fun _ => ⟨h, hrefl.advances, fun _ => hrefl.leavesNothing, fun hfalse => by cases hfalse⟩
  induction outer generalizing here with
  | nil =>
      have hrun : lookedAhead definer first rest span here [] session = (false, session) := by
        unfold lookedAhead
        simp
      exact lookupAlong_finds_of_ahead hsound hexplorer h hhere hchain hcomplaint
        fun _ => hrun ▸ hstays here
  | cons next others ih =>
      obtain ⟨hlt, hnext⟩ := h.formed.enclosing here next others hchain
      have hsize := Nat.lt_trans hlt hhere
      refine lookupAlong_finds_of_ahead hsound hexplorer h hhere hchain hcomplaint fun hmeaning => ?_
      have hsame := fault?_of_enclosing h.formed hchain hmeaning rest span
      have hfound := ih hsize hnext fun finding hfault => hcomplaint finding (hsame.trans hfault)
      unfold lookedAhead
      split
      · refine ⟨hfound.explored, hfound.advances, hfound.left, fun hjunk => ?_⟩
        have hfault := hfound.advances.fault? hhere (first :: rest) span
        rw [hsame, ← hfound.advances.fault? hsize] at hfault
        cases hfinding : ((lookupAlong definer first rest span (next :: others)).run
          session).2.tree.fault? (((lookupAlong definer first rest span (next :: others)).run
            session).2.tree.chain next) (first :: rest) span with
        | none =>
            have hlive := (hfound.told.faultless hfinding).1
            cases hjunk.symm.trans hlive
        | some finding =>
            exact ⟨finding, (hfound.told.faulty finding hfinding).2, hfault.trans hfinding⟩
      · exact hstays here

/-- A lookup leads to a name of its scope, or it has gone wrong. -/
theorem lookup_finds {scope : ScopeId} (path : List String) (span : Span)
    (h : Explored layout active searching session)
    (hscope : scope.index < session.tree.scopes.size)
    (hcomplaint : ∀ finding, session.tree.fault? (session.tree.chain scope) path span =
      some finding → Complaint layout session finding) :
    Finds layout active searching session scope path span
      ((lookup definer scope path span).run session) := by
  have hrefl := Plain.refl h.formed
  rw [run_lookup]
  cases path with
  | nil =>
      exact finds_refused h hrefl.advances (fun _ => hrefl.leavesNothing) hscope _ rfl
        (hcomplaint _ rfl)
  | cons first rest =>
      exact lookupAlong_finds hsound hexplorer first rest span h hscope rfl hcomplaint

end Lookups

end Evaluation

end FrameLang
