import FrameLang.Proofs.Analysis.Meanings
import FrameLang.Proofs.Analysis.Termination

/-!
# Answers to demands

A demand on a name is answered with what the name is proven to have.  A name that is not
bound to a definition answers with what is known of it, and less and less is known, so its
answers only shrink.  A name that is bound to a definition hands the demand on and answers
with whatever the definition makes of it, which may have to do with this demand only: a
conversion answers with what it has in common with the demand, and the next demand finds
nothing of this left.

There are definitions with nothing to answer but what is proven of them.  A literal has
one kind, an arithmetic operation keeps what is known of it, and a lookup or the body of a
binding answers with what it leads to (`Evaluation.Straight`).  For names that are bound
to such a definition, or to none, the answers only shrink (`Analysis.answers_shrink`).

## Strategy

What the answers to the demands on a name cannot exceed from now on is known at any time
(`Evaluation.limit`), and it only shrinks.  Each answer is the limit at the time when it is
given.  For a name that is bound to a straight definition this takes that the
definition is not proven to be anything that it could not be by its own rule
(`Shrinking.capped`), as this is what makes the next answer the same as what is proven.

Which definitions are straight depends on what lookups mean, and so it is fixed only at the
end.  Therefore everything is shown with the final session in view, of sessions from which
it comes to be (`Precedes`).
-/

namespace FrameLang

/-! ## Definitions -/

/-- The nodes that a node takes its kinds from as they are. -/
def Way.trusted : Way → List NodeId
  | coalesce _ fallback => [fallback]
  | choose consequent alternative => [consequent, alternative]
  | body node => [node]
  | leaf _ | lookup _ | arithmetic _ _ | enforce _ _ => []

/-- The nodes of this sort answer with what is proven of them, whatever is demanded. -/
def Way.Plain : Way → Prop
  | leaf _ | lookup _ | arithmetic _ _ | body _ => True
  | coalesce _ _ | choose _ _ | enforce _ _ => False

instance (way : Way) : Decidable way.Plain := by
  cases way
  all_goals first | exact isTrue trivial | exact isFalse id

/-- True when an event says that the evaluation of a node began. -/
def Event.enters (node : NodeId) : Event → Bool
  | entered other _ => other = node
  | _ => false

/-- The answers to the demands on a name, newest first. -/
def answersTo (name : NameId) (events : List Event) : List Kinds :=
  events.filterMap fun
    | .answered other proven => if other = name then some proven else none
    | _ => none

namespace Evaluation

/-- A node takes its kinds from another node as they are. -/
inductive Defers (layout : Layout) (session : Session Progress) (node other : NodeId) : Prop where
  | within {placement : Placement} (hplaced : layout.nodes.find? node = some placement)
      (hother : other ∈ placement.expr.way.trusted)
  | named {placement : Placement} {path : List String} {name : NameId}
      (hplaced : layout.nodes.find? node = some placement)
      (hway : placement.expr.way = .lookup path)
      (hname : session.defs.resolved.find? node = some name)
      (hother : session.tree.definition? name = some other)

/-- A node has been evaluated for the sake of what it means itself. -/
def EnteredInSearch (events : List Event) (node : NodeId) : Prop :=
  ∃ demanded earlier, .entered node demanded :: earlier <:+ events ∧ node ∈ searchedIn earlier

theorem enteredInSearch_nil (node : NodeId) : ¬ EnteredInSearch [] node := by
  rintro ⟨demanded, earlier, hsuffix, -⟩
  cases List.suffix_nil.mp hsuffix

theorem enteredInSearch_cons {event : Event} {events : List Event} {node : NodeId} :
    EnteredInSearch (event :: events) node ↔
      (event.enters node = true ∧ node ∈ searchedIn events) ∨ EnteredInSearch events node := by
  constructor
  · rintro ⟨demanded, earlier, hsuffix, hsearched⟩
    rcases List.suffix_cons_iff.mp hsuffix with heq | hsuffix
    · cases heq
      exact .inl ⟨by simp [Event.enters], hsearched⟩
    · exact .inr ⟨demanded, earlier, hsuffix, hsearched⟩
  · rintro (⟨henters, hsearched⟩ | ⟨demanded, earlier, hsuffix, hsearched⟩)
    · cases event with
      | entered other demanded =>
          obtain rfl : other = node := of_decide_eq_true henters
          exact ⟨demanded, events, List.suffix_refl _, hsearched⟩
      | _ => cases henters
    · exact ⟨demanded, earlier, hsuffix.trans (List.suffix_cons _ _), hsearched⟩

instance decidableEnteredInSearch (node : NodeId) :
    (events : List Event) → Decidable (EnteredInSearch events node)
  | [] => isFalse (enteredInSearch_nil node)
  | _ :: events =>
      have := decidableEnteredInSearch node events
      decidable_of_iff _ enteredInSearch_cons.symm

/-- A node answers with what is proven of it, and so do the nodes that it takes this from. -/
def Straight (layout : Layout) (session : Session Progress) (node : NodeId) : Prop :=
  ∀ other, Relation.ReflTransGen (Defers layout session) node other →
    (∃ placement, layout.nodes.find? other = some placement ∧ placement.expr.way.Plain) ∧
      ¬ EnteredInSearch session.trace other

/-- A name is not bound to a definition, or to one that answers with what is proven of it. -/
def Tame (layout : Layout) (session : Session Progress) (name : NameId) : Prop :=
  ∀ node, session.tree.definition? name = some node → Straight layout session node

/-- What a demand on a name cannot get more than. -/
def limit (session : Session Progress) (name : NameId) : Kinds :=
  match session.tree.definition? name with
  | some node => session.defs.kindsOf node
  | none => session.tree.held name

/-- What a node with an expression may have as far as it takes this from elsewhere. -/
def allowed (session : Session Progress) (expr : Expr) : Kinds :=
  match expr.way with
  | .leaf natural => natural
  | .lookup _ =>
      match session.defs.resolved.find? expr.id with
      | some name => limit session name
      | none => .any
  | .body node => session.defs.kindsOf node
  | _ => ∅

/-- The answers so far have been shrinking, and they will. -/
structure Shrinking (layout : Layout) (final session : Session Progress) : Prop where
  /-- Nothing that is allowed has been ruled out. -/
  capped : ∀ node placement, layout.nodes.find? node = some placement →
    Straight layout final node → allowed session placement.expr ⊆ session.defs.kindsOf node
  answers : ∀ name, Tame layout final name → (answersTo name session.trace).Pairwise (· ⊆ ·)
  limited : ∀ name, Tame layout final name →
    ∀ kinds ∈ answersTo name session.trace, limit session name ⊆ kinds

open ScopeM

/-! ## Limits -/

section Limits

variable {layout : Layout} {final session before after : Session Progress}

theorem limit_of_definition {name : NameId} {node : NodeId}
    (h : session.tree.definition? name = some node) :
    limit session name = session.defs.kindsOf node := by
  rw [limit, h]

theorem limit_of_unbound {name : NameId} (h : session.tree.definition? name = none) :
    limit session name = session.tree.held name := by
  rw [limit, h]

theorem limit_of_delegated (hformed : session.tree.Formed) {name source : NameId}
    (h : (session.tree.name name).origin = .delegated source) :
    limit session name = limit session source := by
  rw [limit, limit, ScopeTree.definition?_of_delegated hformed h, ScopeTree.held, ScopeTree.held,
    ScopeTree.bearer_of_delegated hformed h]

/-- Of a name that there is not, anything may be expected. -/
theorem limit_of_size_le {name : NameId} (h : session.tree.names.size ≤ name.index) :
    limit session name = .any := by
  have hjunk := ScopeTree.name_of_size_le h
  have hown : session.tree.bearer name = name :=
    ScopeTree.bearer_of_not_delegated fun source heq => by rw [hjunk] at heq; cases heq
  rw [limit_of_unbound (ScopeTree.definition?_of_isJunk (by rw [ScopeTree.isJunk, hjunk]; rfl)),
    ScopeTree.held, hown, hjunk]
  rfl

theorem limit_subset (hformed : before.tree.Formed) (h : before.Evolves after) (name : NameId) :
    limit after name ⊆ limit before name := by
  by_cases hname : name.index < before.tree.names.size
  · have hsame := h.grows.definition? hformed hname
    cases hnode : before.tree.definition? name with
    | some node =>
        rw [limit_of_definition hnode, limit_of_definition (hsame.trans hnode)]
        exact (h.later.kinds node).subset
    | none =>
        rw [limit_of_unbound hnode, limit_of_unbound (hsame.trans hnode)]
        exact (h.grows.origin_bearer hformed h.formed hname).known.subset
  · rw [limit_of_size_le (Nat.le_of_not_lt hname)]
    exact Kinds.subset_iff.mpr (by simp)

theorem limit_ne_empty (hformed : session.tree.Formed)
    (hinhabited : ∀ node, session.defs.kindsOf node ≠ ∅) (name : NameId) :
    limit session name ≠ ∅ := by
  cases hnode : session.tree.definition? name with
  | some node =>
      rw [limit_of_definition hnode]
      exact hinhabited node
  | none =>
      rw [limit_of_unbound hnode]
      exact hformed.known _

theorem allowed_of_leaf {expr : Expr} {natural : Kinds} (h : expr.way = .leaf natural) :
    allowed session expr = natural := by
  rw [allowed, h]

theorem allowed_of_lookup {expr : Expr} {path : List String} (h : expr.way = .lookup path)
    {name : NameId} (hname : session.defs.resolved.find? expr.id = some name) :
    allowed session expr = limit session name := by
  rw [allowed, h]
  dsimp only
  rw [hname]

theorem allowed_of_body {expr : Expr} {node : NodeId} (h : expr.way = .body node) :
    allowed session expr = session.defs.kindsOf node := by
  rw [allowed, h]

theorem allowed_of_arithmetic {expr : Expr} {left right : NodeId}
    (h : expr.way = .arithmetic left right) : allowed session expr = ∅ := by
  rw [allowed, h]

theorem allowed_subset (hformed : before.tree.Formed) (h : Precedes before after) (expr : Expr) :
    allowed after expr ⊆ allowed before expr := by
  unfold allowed
  cases expr.way with
  | leaf natural => exact Kinds.subset_refl _
  | lookup path =>
      dsimp only
      cases hname : before.defs.resolved.find? expr.id with
      | some name =>
          rw [h.resolved _ _ hname]
          exact limit_subset hformed h.evolves name
      | none => exact Kinds.subset_iff.mpr (by simp)
  | body node => exact (h.evolves.later.kinds node).subset
  | coalesce _ _ | choose _ _ | arithmetic _ _ | enforce _ _ => exact Kinds.subset_refl _

end Limits

/-! ## Straight definitions -/

section Definitions

variable {layout : Layout} {final session : Session Progress}

theorem Straight.defers {node other : NodeId} (h : Straight layout final node)
    (hdefers : Defers layout final node other) : Straight layout final other :=
  fun _ hpath => h _ (.head hdefers hpath)

theorem Straight.plain {node : NodeId} (h : Straight layout final node) {placement : Placement}
    (hplaced : layout.nodes.find? node = some placement) : placement.expr.way.Plain := by
  obtain ⟨⟨other, hother, hplain⟩, -⟩ := h node .refl
  obtain rfl := Option.some.inj (hplaced.symm.trans hother)
  exact hplain

/-- A node that takes its kinds from no other node as they are. -/
theorem Straight.of_end {node : NodeId} {placement : Placement}
    (hplaced : layout.nodes.find? node = some placement) (hplain : placement.expr.way.Plain)
    (hsearch : ¬ EnteredInSearch final.trace node)
    (hend : ∀ other, ¬ Defers layout final node other) : Straight layout final node := by
  intro other hpath
  rcases hpath.cases_head with rfl | ⟨next, hdefers, -⟩
  · exact ⟨⟨placement, hplaced, hplain⟩, hsearch⟩
  · exact absurd hdefers (hend next)

/-- What a straight lookup means is not bound to any definition but a straight one. -/
theorem Straight.tame {expr : Expr} {scope : ScopeId} (h : Straight layout final expr.id)
    (hplaced : layout.nodes.find? expr.id = some ⟨expr, scope⟩) {path : List String}
    (hway : expr.way = .lookup path) {name : NameId}
    (hname : final.defs.resolved.find? expr.id = some name) : Tame layout final name :=
  fun _ hnode => h.defers (.named hplaced hway hname hnode)

theorem defs_leaf (span : Span) (natural demanded : Kinds) (session : Session Progress) :
    ((leaf span natural demanded).run session).2.defs = session.defs := by
  rw [run_leaf]
  split <;> rfl

/-- What has been reported does not matter. -/
theorem Tame.of_reporting {reporter : Reporter} {name : NameId}
    (h : Tame layout (final.reporting reporter) name) : Tame layout final name := by
  refine fun node hnode other hpath =>
    h node hnode other (hpath.lift id fun first second hdefers => ?_)
  cases hdefers with
  | within hplaced hother => exact .within hplaced hother
  | named hplaced hway hname hother => exact .named hplaced hway hname hother

/-- A literal has one kind. -/
theorem leaf_singleton {expr : Expr} {natural : Kinds} (h : expr.way = .leaf natural) :
    ∃ kind : Kind, natural = {kind} := by
  cases expr <;> cases h <;> exact ⟨_, rfl⟩

theorem run_leaf_fst (span : Span) (kind : Kind) (demanded : Kinds) (session : Session Progress) :
    ((leaf span {kind} demanded).run session).1 = {kind} := by
  rw [run_leaf]
  split
  · next hmeets =>
    obtain ⟨other, hother, hdemanded⟩ := Kinds.meets_iff.mp hmeets
    obtain rfl := Kinds.mem_singleton.mp hother
    refine Kinds.inter_eq_self (Kinds.subset_iff.mpr fun kind hkind => ?_)
    rwa [Kinds.mem_singleton.mp hkind]
  · rfl

end Definitions

/-! ## Steps -/

section Steps

variable {layout : Layout} {final session before after : Session Progress}

theorem answersTo_cons_of_ne {name : NameId} {event : Event}
    (h : ∀ kinds, event ≠ .answered name kinds) (events : List Event) :
    answersTo name (event :: events) = answersTo name events := by
  refine List.filterMap_cons_none ?_
  cases event with
  | answered other kinds =>
      refine if_neg ?_
      rintro rfl
      exact h kinds rfl
  | _ => rfl

theorem answersTo_answered (name : NameId) (kinds : Kinds) (events : List Event) :
    answersTo name (.answered name kinds :: events) = kinds :: answersTo name events :=
  List.filterMap_cons_some (if_pos rfl)

/-- Steps that neither answer a demand nor prove anything. -/
theorem Shrinking.later (h : Shrinking layout final before) (hformed : before.tree.Formed)
    (hprecedes : Precedes before after)
    (htrace : ∀ name, answersTo name after.trace = answersTo name before.trace)
    (hkinds : ∀ node, after.defs.kindsOf node = before.defs.kindsOf node) :
    Shrinking layout final after where
  capped node placement hplaced hstraight := by
    rw [hkinds]
    exact Kinds.subset_trans (allowed_subset hformed hprecedes placement.expr)
      (h.capped node placement hplaced hstraight)
  answers name htame := by
    rw [htrace]
    exact h.answers name htame
  limited name htame kinds hmem := by
    rw [htrace] at hmem
    exact Kinds.subset_trans (limit_subset hformed hprecedes.evolves name)
      (h.limited name htame kinds hmem)

theorem Shrinking.noting (h : Shrinking layout final session) (hformed : session.tree.Formed)
    {event : Event} (hevent : ∀ name kinds, event ≠ .answered name kinds) :
    Shrinking layout final (session.noting event) :=
  h.later hformed (.noting hformed event)
    (fun name => answersTo_cons_of_ne (hevent name) _) fun _ => rfl

theorem Shrinking.making (h : Shrinking layout final before) (hformed : before.tree.Formed)
    (hmaking : before.Making after) : Shrinking layout final after :=
  h.later hformed (.making hmaking hformed) (fun _ => by rw [hmaking.trace])
    fun _ => by rw [hmaking.defs]

theorem Shrinking.reporting (h : Shrinking layout final session) (hformed : session.tree.Formed)
    (error : Diagnostic) :
    Shrinking layout final (session.reporting (session.reporter.push error)) :=
  h.making hformed (.reporting error)

theorem Shrinking.demanding (h : Shrinking layout final session) (hformed : session.tree.Formed)
    (id : NameId) (demanded : Kinds) (unbox : Bool) :
    Shrinking layout final (session.demanding id demanded unbox) :=
  h.later hformed (.demanding hformed id demanded unbox) (fun _ => rfl) fun _ => rfl

theorem Shrinking.ensureIntrinsic (h : Shrinking layout final session)
    (hformed : session.tree.Formed) (scope : ScopeId) (node : NodeId) (demanded : Kinds)
    (unbox : Bool) (span : Span) :
    Shrinking layout final
      ((ensureIntrinsic scope node demanded unbox span).run session).2 := by
  have hdefs := defs_ensureIntrinsic scope node demanded unbox span session
  have hevolves := ensureIntrinsic_evolves scope node demanded unbox span hformed
  exact h.later hformed (.of_eq hevolves (by rw [hdefs]))
    (fun _ => by rw [trace_ensureIntrinsic]) fun _ => by rw [hdefs]

/-- A lookup comes to mean a name. -/
theorem Shrinking.resolving (h : Shrinking layout final session) (hformed : session.tree.Formed)
    {node : NodeId} (hnone : session.defs.resolved.find? node = none) (name : NameId) :
    Shrinking layout final (resolving session node name) :=
  h.later hformed (.resolving hformed hnone name)
    (fun _ => answersTo_cons_of_ne (fun _ => by simp) _) fun _ => rfl

/-- A demand is answered with what cannot be exceeded from now on. -/
theorem Shrinking.answering (h : Shrinking layout final session) (name : NameId) {proven : Kinds}
    (hproven : Tame layout final name → proven = limit session name) :
    Shrinking layout final (session.noting (.answered name proven)) where
  capped := h.capped
  answers other htame := by
    change (answersTo other (.answered name proven :: session.trace)).Pairwise (· ⊆ ·)
    by_cases heq : name = other
    · subst heq
      rw [answersTo_answered]
      refine List.pairwise_cons.mpr ⟨fun kinds hkinds => ?_, h.answers name htame⟩
      rw [hproven htame]
      exact h.limited name htame kinds hkinds
    · rw [answersTo_cons_of_ne (by simp [heq])]
      exact h.answers other htame
  limited other htame := by
    change ∀ kinds ∈ answersTo other (.answered name proven :: session.trace), _ ⊆ kinds
    by_cases heq : name = other
    · subst heq
      rw [answersTo_answered]
      refine List.forall_mem_cons.mpr ⟨?_, h.limited name htame⟩
      rw [hproven htame]
      exact Kinds.subset_refl _
    · rw [answersTo_cons_of_ne (by simp [heq])]
      exact h.limited other htame

/-- The evaluation of a node comes to its end.  A straight node is left with all that it is allowed
to have. -/
theorem Shrinking.leaving (h : Shrinking layout final session) (hformed : session.tree.Formed)
    {expr : Expr} {scope : ScopeId} (hplaced : layout.nodes.find? expr.id = some ⟨expr, scope⟩)
    {proven : Kinds}
    (hproven : Straight layout final expr.id → allowed session expr ⊆
      (leaving session expr.id proven).defs.kindsOf expr.id) :
    Shrinking layout final (leaving session expr.id proven) := by
  have hprecedes : Precedes session (Evaluation.leaving session expr.id proven) :=
    .leaving hformed ..
  refine ⟨fun node placement hnode hstraight => ?_, h.answers, fun name htame kinds hkinds => ?_⟩
  · refine Kinds.subset_trans (allowed_subset hformed hprecedes placement.expr) ?_
    by_cases heq : expr.id = node
    · subst heq
      obtain rfl := Option.some.inj (hplaced.symm.trans hnode)
      exact hproven hstraight
    · have hkinds : (Evaluation.leaving session expr.id proven).defs.kindsOf node =
          session.defs.kindsOf node := (Progress.kindsOf_prove ..).trans (if_neg heq)
      rw [hkinds]
      exact h.capped node placement hnode hstraight
  · exact Kinds.subset_trans (limit_subset hformed hprecedes.evolves name)
      (h.limited name htame kinds hkinds)

end Steps

/-! ## Evaluation -/

/-- Answers go on shrinking in evaluations, and a straight node is left with what it answers. -/
def Truthful (layout : Layout) (final : Session Progress) (active searching : List NodeId)
    (definer : Definer Progress) : Prop :=
  ∀ id demanded unbox session, Standing layout active searching session →
    Shrinking layout final session →
      Precedes ((definer id demanded unbox).run session).2 final →
        Shrinking layout final ((definer id demanded unbox).run session).2 ∧
          (Straight layout final id → ((definer id demanded unbox).run session).1 =
            ((definer id demanded unbox).run session).2.defs.kindsOf id)

section Demands

variable {layout : Layout} {final session : Session Progress} {depth : Nat}
  {active searching : List NodeId}

/-- A name that settles a demand by itself cannot exceed what is known once it has been made. -/
theorem limit_demanding (hformed : session.tree.Formed) {id : NameId} {demanded : Kinds}
    (hbound : (session.tree.name id).origin.definition? = none)
    (hown : ∀ source, (session.tree.name id).origin ≠ .delegated source) (unbox : Bool) :
    limit (session.demanding id demanded unbox) id =
      ((session.tree.name id).origin.narrow demanded).known := by
  have hformed' := (Session.Evolves.demanding hformed id demanded unbox).formed
  have horigin := (session.origin_demanding id id demanded unbox).trans (if_pos rfl)
  have hbearer : (session.demanding id demanded unbox).tree.bearer id = id := by
    refine ScopeTree.bearer_of_not_delegated fun source heq => ?_
    rw [horigin] at heq
    cases hbefore : (session.tree.name id).origin with
    | delegated other => exact hown other hbefore
    | _ => rw [hbefore] at heq; cases heq
  have hnone : (session.demanding id demanded unbox).tree.definition? id = none := by
    rw [ScopeTree.definition?_bearer hformed', hbearer, horigin, Origin.definition?_narrow, hbound]
  rw [limit_of_unbound hnone, ScopeTree.held, hbearer, horigin]

/-- What a definition proves is no news to what its name is bound to. -/
theorem Shrinking.proving (h : Shrinking layout final session) (hformed : session.tree.Formed)
    (id : NameId) (proven : Kinds) : Shrinking layout final (session.proving id proven) :=
  h.later hformed (.proving hformed id proven) (fun _ => rfl) fun _ => rfl

variable (hdefiner : Truthful layout final active searching (evaluate layout depth active searching))
include hdefiner

theorem follow_shrinking (id : NameId) (demanded : Kinds) (unbox : Bool)
    (h : Standing layout active searching session) (hshrinking : Shrinking layout final session) :
    let followed := (follow (evaluate layout depth active searching) id demanded unbox).run session
    Precedes followed.2 final → Shrinking layout final followed.2 ∧
      (Tame layout final id → followed.1 = limit followed.2 id) := by
  have hsound := evaluate_sound layout depth active searching
  intro followed
  have hfollows : Follows _ demanded unbox id session followed :=
    follows_follow _ id demanded unbox h.formed
  clear_value followed
  induction hfollows with
  | @settled id session proven hanswer =>
      have hnot := Origin.ne_delegated_of_answer fun source heq => by cases hanswer.symm.trans heq
      have hbound : (session.tree.name id).origin.definition? = none :=
        Origin.definition?_of_answer fun node heq => by cases hanswer.symm.trans heq
      refine fun _ => ⟨hshrinking.demanding h.formed id demanded unbox, fun _ => ?_⟩
      exact ((limit_demanding h.formed hbound hnot unbox).trans
        (Origin.known_of_settled hanswer)).symm
  | @refused id session known hanswer =>
      have hnot := Origin.ne_delegated_of_answer fun source heq => by cases hanswer.symm.trans heq
      have hbound : (session.tree.name id).origin.definition? = none :=
        Origin.definition?_of_answer fun node heq => by cases hanswer.symm.trans heq
      have hdemanded := hshrinking.demanding h.formed id demanded unbox
      refine fun _ => ⟨hdemanded.reporting (h.demanding id demanded unbox).formed _, fun _ => ?_⟩
      refine Eq.symm ((limit_demanding h.formed hbound hnot unbox).trans ?_)
      rw [Origin.narrow_of_refused hanswer, (Origin.of_refused hanswer).2]
  | @delegated id source session followed horigin hrest ih =>
      have hid : id.index < session.tree.names.size := ScopeTree.lt_size_of_not_junk
        (NameRecord.isJunk_eq_false.mpr (by rw [horigin]; simp))
      intro hfinal
      obtain ⟨hpassed, hanswer⟩ := ih (h.demanding id demanded unbox)
        (hshrinking.demanding h.formed id demanded unbox) hfinal
      refine ⟨hpassed, fun htame => ?_⟩
      have hevolves := (Follows.delegated id source horigin hrest).evolves hsound h.formed
      have hafter := (hevolves.grows.name id hid).origin.delegated_iff.mpr horigin
      have hlast := ((hevolves.trans hfinal.evolves).grows.name id hid).origin.delegated_iff.mpr
        horigin
      rw [limit_of_delegated hevolves.formed hafter]
      refine hanswer fun node hnode => htame node ?_
      rw [ScopeTree.definition?_of_delegated hfinal.evolves.formed hlast, hnode]
  | @bound id node session kinds defined horigin hdefined =>
      have hnode := ScopeTree.definition?_of_bound horigin
      have hnoting := h.defining id node demanded unbox
      have hnoted : Shrinking layout final ((session.demanding id demanded
          unbox).noting (.defining node demanded unbox)) :=
        (hshrinking.demanding h.formed id demanded unbox).noting
          (h.demanding id demanded unbox).formed fun _ _ => by simp
      have hevaluated := (evaluate_standing depth node demanded unbox hnoting).1
      have hproven := hdefiner node demanded unbox _ hnoting hnoted
      rw [hdefined] at hevaluated hproven
      intro hfinal
      obtain ⟨hshrunk, hkinds⟩ := hproven ((Precedes.proving hevaluated.formed id _).trans hfinal)
      refine ⟨hshrunk.proving hevaluated.formed id _, fun htame => ?_⟩
      have hid : id.index < session.tree.names.size := ScopeTree.lt_size_of_not_junk
        (NameRecord.isJunk_eq_false.mpr (by rw [horigin]; simp))
      have hevolves := (Follows.bound id node horigin hdefined).evolves hsound h.formed
      have hafter := (hevolves.grows.definition? h.formed hid).trans hnode
      have hlast := ((hevolves.trans hfinal.evolves).grows.definition? h.formed hid).trans hnode
      exact (hkinds (htame node hlast)).trans (limit_of_definition hafter).symm

theorem ensure_shrinking (id : NameId) (demanded : Kinds) (unbox : Bool)
    (h : Standing layout active searching session) (hshrinking : Shrinking layout final session) :
    let ensured := (ensure (evaluate layout depth active searching) id demanded unbox).run session
    Precedes ensured.2 final → Shrinking layout final ensured.2 ∧
      (Tame layout final id → ensured.1 = limit ensured.2 id) := by
  have hasking : Standing layout active searching (session.noting (.asked id demanded unbox)) :=
    h.noting trivial
  have hasked : Shrinking layout final (session.noting (.asked id demanded unbox)) :=
    hshrinking.noting h.formed fun _ _ => by simp
  have hfollowing := follow_evolves (evaluate_sound layout depth active searching) id demanded
    unbox hasking.formed
  have hfollowed := follow_shrinking hdefiner id demanded unbox hasking hasked
  rw [run_ensure]
  dsimp only at hfollowed ⊢
  intro hfinal
  obtain ⟨hshrunk, hanswer⟩ := hfollowed ((Precedes.noting hfollowing.formed _).trans hfinal)
  exact ⟨hshrunk.answering id hanswer, hanswer⟩

/-- Answers shrink, unless the session in view cannot be reached any more. -/
def Bound (layout : Layout) (final : Session Progress) (active searching : List NodeId)
    (session : Session Progress) : Prop :=
  Standing layout active searching session ∧
    (Precedes session final → Shrinking layout final session)

theorem shrinking_sustained : Sustains (evaluate layout depth active searching)
    (Bound layout final active searching) where
  formed _ h := h.1.formed
  making before after h hmaking := by
    refine ⟨h.1.making hmaking, fun hfinal => ?_⟩
    have hbefore := h.2 ((Precedes.making hmaking h.1.formed).trans hfinal)
    exact hbefore.making h.1.formed hmaking
  ensure session id h _ := by
    obtain ⟨hstanding, hprecedes⟩ := ensure_standing depth id {.frame} false h.1
    have hensured := fun hshrinking => ensure_shrinking hdefiner id {.frame} false h.1 hshrinking
    refine ⟨⟨hstanding, fun hfinal => ?_⟩, hprecedes.evolves.grows.retains⟩
    have hshrinking := h.2 (hprecedes.trans hfinal)
    exact (hensured hshrinking hfinal).1

end Demands

section Rules

variable {layout : Layout} {final session : Session Progress} {depth : Nat}
  {active searching : List NodeId}

theorem resolve_shrinking {mark : Mark}
    (hduring : Truthful layout final active (mark.id :: searching)
      (evaluate layout depth active (mark.id :: searching)))
    (scope : ScopeId) (path : List String) (h : Standing layout active searching session)
    (hshrinking : Shrinking layout final session) :
    let found := (resolve (evaluate layout depth active (mark.id :: searching)) searching scope mark
      path).run session
    Precedes found.2 final → Shrinking layout final found.2 := by
  rw [run_resolve]
  cases hresolved : session.defs.resolved.find? mark.id with
  | some name => exact fun _ => hshrinking
  | none =>
      dsimp only
      split
      · exact fun _ => hshrinking
      · next hid =>
        intro hfinal
        have hbegun : Shrinking layout final (session.noting (.searching mark.id)) :=
          hshrinking.noting h.formed fun _ _ => by simp
        have hfound := ((shrinking_sustained hduring).lookup scope path mark.span
          ⟨h.beginning hid hresolved, fun _ => hbegun⟩).reached
        generalize (lookup (evaluate layout depth active (mark.id :: searching)) scope path
          mark.span).run (session.noting (.searching mark.id)) = found at hfound hfinal ⊢
        obtain ⟨hstanding, hshrunk⟩ := hfound
        have hnone := hstanding.nested.unresolved mark.id List.mem_cons_self
        have hresolving := Precedes.resolving hstanding.formed hnone found.1
        exact (hshrunk (hresolving.trans hfinal)).resolving hstanding.formed hnone found.1

/-- A rule has been applied, and the evaluation of the node is about to come to its end. -/
structure Ruled (layout : Layout) (final : Session Progress) (expr : Expr)
    (found : Kinds × Session Progress) : Prop where
  shrinking : Shrinking layout final found.2
  allowed : Straight layout final expr.id →
    allowed found.2 expr ⊆ (leaving found.2 expr.id found.1).defs.kindsOf expr.id
  proven : Straight layout final expr.id →
    found.1 = (leaving found.2 expr.id found.1).defs.kindsOf expr.id

/-- A straight node that answers with all that it is allowed to have is left with its answer. -/
theorem Ruled.of_allowed {expr : Expr} {scope : ScopeId}
    (hplaced : layout.nodes.find? expr.id = some ⟨expr, scope⟩) {found : Kinds × Session Progress}
    (hshrinking : Shrinking layout final found.2)
    (hproven : Straight layout final expr.id →
      found.1 = Evaluation.allowed found.2 expr ∧ found.1 ≠ ∅) :
    Ruled layout final expr found := by
  have hkinds : Straight layout final expr.id →
      found.1 = (leaving found.2 expr.id found.1).defs.kindsOf expr.id := by
    intro hstraight
    obtain ⟨hanswer, hne⟩ := hproven hstraight
    have hcapped : found.1 ⊆ found.2.defs.kindsOf expr.id := by
      rw [hanswer]
      exact hshrinking.capped expr.id _ hplaced hstraight
    refine ((Progress.kindsOf_prove ..).trans ((if_pos rfl).trans ?_)).symm
    exact Kinds.narrow_of_subset hcapped hne
  refine ⟨hshrinking, fun hstraight => ?_, hkinds⟩
  rw [← hkinds hstraight, (hproven hstraight).1]
  exact Kinds.subset_refl _

/-- An arithmetic operation is left with what has been weighed. -/
theorem Ruled.of_weighing {expr : Expr} {scope : ScopeId} {left right : NodeId}
    (hplaced : layout.nodes.find? expr.id = some ⟨expr, scope⟩)
    (hway : expr.way = .arithmetic left right) {natural : Kinds} (hnatural : natural ≠ ∅)
    (h : Standing layout active searching session) (hshrinking : Shrinking layout final session)
    (demanded : Kinds) (unbox : Bool) :
    Ruled layout final expr
      (weighing scope expr.id natural demanded unbox expr.span session) := by
  have hweighed := weighed_weighing h.balanced hplaced hway hnatural demanded unbox expr.span
  refine ⟨?_, fun _ => ?_, fun _ => ?_⟩
  · have hformed := (ensureIntrinsic_evolves scope expr.id natural true expr.span h.formed).formed
    have hfirst := hshrinking.ensureIntrinsic h.formed scope expr.id natural true expr.span
    exact hfirst.ensureIntrinsic hformed scope expr.id demanded unbox expr.span
  · rw [allowed_of_arithmetic hway]
    exact Kinds.subset_iff.mpr (by simp)
  · exact ((hweighed.kindsOf expr.id).trans (if_pos rfl)).symm

theorem rule_ruled {expr : Expr} {scope : ScopeId}
    (hagain : Truthful layout final active searching (evaluate layout depth active searching))
    (hduring : Truthful layout final active (expr.id :: searching)
      (evaluate layout depth active (expr.id :: searching)))
    (hplaced : layout.nodes.find? expr.id = some ⟨expr, scope⟩)
    (hsearch : Straight layout final expr.id → expr.id ∉ searching) (demanded : Kinds)
    (unbox : Bool) (h : Standing layout active searching session)
    (hshrinking : Shrinking layout final session) :
    let found := (rule (evaluate layout depth active searching)
      (evaluate layout depth active (expr.id :: searching)) searching scope demanded unbox
      expr).run session
    Precedes found.2 final → Ruled layout final expr found := by
  have hleaf : ∀ later : Session Progress, later.tree.Formed → Shrinking layout final later →
      ∀ natural, Shrinking layout final ((leaf expr.span natural demanded).run later).2 := by
    intro later hformed hlater natural
    rw [run_leaf]
    split
    · exact hlater
    · exact hlater.reporting hformed _
  rw [run_rule]
  cases hway : expr.way with
  | leaf natural =>
      intro found hfinal
      obtain ⟨kind, rfl⟩ := leaf_singleton hway
      have hfst := run_leaf_fst expr.span kind demanded session
      refine .of_allowed hplaced (hleaf session h.formed hshrinking _) fun _ => ?_
      rw [hfst, allowed_of_leaf hway]
      exact ⟨rfl, Kinds.ne_empty_iff.mpr ⟨kind, Kinds.mem_singleton.mpr rfl⟩⟩
  | lookup path =>
      have hresolved := resolve_shrinking hduring scope path h hshrinking
      obtain ⟨hstanding, hprecedes, hmeans, hnone⟩ := resolve_standing depth scope expr.mark path h
      have hid : expr.mark.id = expr.id := rfl
      rw [hid] at hresolved hmeans hnone hstanding hprecedes
      dsimp only at hresolved hmeans ⊢
      generalize (resolve (evaluate layout depth active (expr.id :: searching)) searching scope
        expr.mark path).run session = found at hresolved hmeans hnone hstanding hprecedes ⊢
      cases hname : found.1 with
      | none =>
          refine fun hfinal => .of_allowed hplaced (hresolved hfinal) fun hstraight => ?_
          exact absurd (hnone hname) (hsearch hstraight)
      | some name =>
          obtain ⟨hensured, hlater⟩ := ensure_standing depth name demanded unbox hstanding
          have hshrunk := ensure_shrinking hagain name demanded unbox hstanding
          dsimp only at hensured hlater hshrunk ⊢
          intro hfinal
          obtain ⟨hshrunk, hanswer⟩ := hshrunk (hresolved (hlater.trans hfinal)) hfinal
          refine .of_allowed hplaced hshrunk fun hstraight => ?_
          have hmeant := hlater.resolved _ _ (hmeans name hname)
          have hlimit := hanswer (hstraight.tame hplaced hway (hfinal.resolved _ _ hmeant))
          rw [hlimit, allowed_of_lookup hway hmeant]
          exact ⟨rfl, limit_ne_empty hensured.formed hensured.balanced.inhabited name⟩
  | coalesce primary fallback =>
      have hfallback := evaluate_standing depth fallback demanded unbox h
      have hprimary := evaluate_standing depth primary (demanded ∪ {.unit}) unbox hfallback.1
      dsimp only
      intro hfinal
      have hfirst := hagain fallback demanded unbox session h hshrinking (hprimary.2.trans hfinal)
      have hsecond := hagain primary (demanded ∪ {.unit}) unbox _ hfallback.1 hfirst.1
      exact .of_allowed hplaced (hsecond hfinal).1 fun hstraight =>
        absurd (hstraight.plain hplaced) (by simp [hway, Way.Plain])
  | choose consequent alternative =>
      have hconsequent := evaluate_standing depth consequent demanded unbox h
      have halternative := evaluate_standing depth alternative demanded unbox hconsequent.1
      dsimp only
      intro hfinal
      have hfirst := hagain consequent demanded unbox session h hshrinking
        (halternative.2.trans hfinal)
      have hsecond := hagain alternative demanded unbox _ hconsequent.1 hfirst.1
      exact .of_allowed hplaced (hsecond hfinal).1 fun hstraight =>
        absurd (hstraight.plain hplaced) (by simp [hway, Way.Plain])
  | arithmetic left right =>
      have hleft := evaluate_standing depth left .number true h
      have hright := evaluate_standing depth right .number true hleft.1
      have hnatural := arithmeticKinds_ne_empty
        ((evaluate layout depth active searching left .number true).run session).1
        ((evaluate layout depth active searching right .number true).run
          ((evaluate layout depth active searching left .number true).run session).2).1
      dsimp only
      generalize arithmeticKinds _ _ = natural at hnatural ⊢
      intro hfinal
      have hweighing := Precedes.weighing hright.1.formed scope expr.id natural demanded unbox
        expr.span
      have hlater := hweighing.trans hfinal
      have hfirst := hagain left .number true session h hshrinking (hright.2.trans hlater)
      have hsecond := hagain right .number true _ hleft.1 hfirst.1
      exact .of_weighing hplaced hway hnatural hright.1 (hsecond hlater).1 demanded unbox
  | enforce value kinds =>
      have hvalue := evaluate_standing depth value kinds true h
      have hleaving := leaf_evolves expr.span kinds demanded hvalue.1.formed
      have hunresolved := defs_leaf expr.span kinds demanded
        ((evaluate layout depth active searching value kinds true).run session).2
      have hlater := Precedes.of_eq hleaving (by rw [hunresolved])
      dsimp only
      intro hfinal
      have hfirst := hagain value kinds true session h hshrinking (hlater.trans hfinal)
      exact .of_allowed hplaced (hleaf _ hvalue.1.formed hfirst.1 kinds) fun hstraight =>
        absurd (hstraight.plain hplaced) (by simp [hway, Way.Plain])
  | body node =>
      have hbody := evaluate_standing depth node demanded unbox h
      dsimp only
      intro hfinal
      obtain ⟨hshrunk, hkinds⟩ := hagain node demanded unbox session h hshrinking hfinal
      refine .of_allowed hplaced hshrunk fun hstraight => ?_
      have hdefers : Defers layout final expr.id node :=
        .within hplaced (by simp [hway, Way.trusted])
      have hanswer := hkinds (hstraight.defers hdefers)
      rw [allowed_of_body hway]
      exact ⟨hanswer, hanswer ▸ hbody.1.balanced.inhabited node⟩

theorem evaluate_truthful (layout : Layout) (final : Session Progress) {depth : Nat}
    {active : List NodeId} (hdepth : idle layout active < depth) (searching : List NodeId) :
    Truthful layout final active searching (evaluate layout depth active searching) := by
  induction depth generalizing active searching with
  | zero => exact absurd hdepth (Nat.not_lt_zero _)
  | succ depth ih =>
      intro id demanded unbox session h hshrinking
      rw [run_evaluate_succ]
      cases hplacement : layout.nodes.find? id with
      | none =>
          refine fun _ => ⟨hshrinking, fun hstraight => ?_⟩
          obtain ⟨⟨placement, hplaced, -⟩, -⟩ := hstraight id .refl
          cases hplacement.symm.trans hplaced
      | some placement =>
          obtain rfl := h.placed id placement hplacement
          dsimp only
          by_cases hactive : placement.expr.id ∈ active
          · rw [if_pos hactive]
            exact fun _ => ⟨hshrinking.noting h.formed fun _ _ => by simp, fun _ => rfl⟩
          · rw [if_neg hactive]
            have hlt := Nat.lt_of_lt_of_le (idle_cons_lt hplacement hactive)
              (Nat.le_of_lt_succ hdepth)
            have hentering := h.entering hactive demanded
            have hentered : Shrinking layout final
                (session.noting (.entered placement.expr.id demanded)) :=
              hshrinking.noting h.formed fun _ _ => by simp
            have hruling := rule_evolves
              (evaluate_sound layout depth (placement.expr.id :: active) searching)
              (evaluate_sound layout depth (placement.expr.id :: active)
                (placement.expr.id :: searching)) searching placement.scope demanded unbox
              placement.expr hentering.formed
            have hruled := fun hsearch => rule_ruled (ih hlt searching)
              (ih hlt (placement.expr.id :: searching)) hplacement hsearch demanded unbox hentering
              hentered
            dsimp only at hruled ⊢
            generalize (rule (evaluate layout depth (placement.expr.id :: active) searching)
              (evaluate layout depth (placement.expr.id :: active)
                (placement.expr.id :: searching)) searching placement.scope demanded unbox
              placement.expr).run (session.noting (.entered placement.expr.id demanded)) = found
              at hruling hruled ⊢
            intro hfinal
            have hleaving : Precedes found.2 (leaving found.2 placement.expr.id found.1) :=
              .leaving hruling.formed ..
            have hlater := hleaving.trans hfinal
            -- a node that is entered while its name is searched is not straight
            have hsearch : Straight layout final placement.expr.id →
                placement.expr.id ∉ searching := by
              intro hstraight hmem
              refine (hstraight placement.expr.id .refl).2 ⟨demanded, session.trace, ?_, ?_⟩
              · exact (hruling.trans hlater.evolves).trace
              · rw [h.nested.searched]
                exact hmem
            obtain ⟨hshrunk, hallowed, hproven⟩ := hruled hsearch hlater
            exact ⟨hshrunk.leaving hruling.formed hplacement hallowed, hproven⟩

end Rules

/-! ## Whole units -/

section Units

variable {layout : Layout} {final session : Session Progress}

theorem classify_shrinking (id : NodeId) (h : Bound layout final [] [] session) :
    Bound layout final [] [] ((classify layout id).run session).2 := by
  obtain ⟨hstanding, hprecedes⟩ := classify_standing id h.1
  refine ⟨hstanding, fun hfinal => ?_⟩
  have hshrinking := h.2 (hprecedes.trans hfinal)
  rw [run_classify] at hfinal ⊢
  cases hplaced : layout.nodes.find? id with
  | none => exact hshrinking
  | some placement =>
      obtain rfl := h.1.placed id placement hplaced
      rw [hplaced] at hfinal
      dsimp only at hfinal ⊢
      cases hway : placement.expr.way with
      | lookup path =>
          rw [hway] at hfinal
          have hduring := evaluate_truthful layout final (idle_lt_depthOf layout [])
            [placement.expr.mark.id]
          have hresolved := resolve_shrinking hduring placement.scope path h.1 hshrinking
          exact hresolved hfinal
      | _ => exact hshrinking

theorem answer_shrinking (ask : Ask) (h : Bound layout final [] [] session) :
    Bound layout final [] [] ((answer layout ask).run session).2 := by
  obtain ⟨hstanding, hprecedes⟩ := answer_standing ask h.1
  refine ⟨hstanding, fun hfinal => ?_⟩
  have hshrinking := h.2 (hprecedes.trans hfinal)
  have hdefiner : Truthful layout final [] [] (definer layout) :=
    evaluate_truthful layout final (idle_lt_depthOf layout []) []
  cases ask with
  | node id kinds => exact (hdefiner id kinds false session h.1 hshrinking hfinal).1
  | definition value =>
      unfold answer at hfinal ⊢
      dsimp only at hfinal ⊢
      cases hbinding : layout.bindings.find? value with
      | some name =>
          rw [hbinding] at hfinal
          have hensured := ensure_shrinking hdefiner name .any false h.1 hshrinking
          exact (hensured hfinal).1
      | none =>
          rw [hbinding] at hfinal
          exact (hdefiner value .any false session h.1 hshrinking hfinal).1

theorem shrinking_start (hkinds : ∀ node, session.defs.kindsOf node = .any)
    (htrace : session.trace = []) : Shrinking layout final session where
  capped node placement _ _ := by
    rw [hkinds]
    exact Kinds.subset_iff.mpr (by simp)
  answers name _ := by
    rw [htrace]
    exact .nil
  limited name _ kinds hmem := by
    rw [htrace] at hmem
    cases hmem

/-- At the end, the answers to the demands on a tame name have been shrinking. -/
theorem answered_shrinking (unit : Expr) (file : String) (topLevel : Bool) :
    let surveyed := Survey.ofUnit unit file topLevel
    let final := answeredIn surveyed (requests surveyed)
    Shrinking surveyed.defs final final := by
  intro surveyed final
  have hstart : Bound surveyed.defs final [] [] (start surveyed) :=
    ⟨start_standing unit file topLevel,
      fun _ => shrinking_start (fun _ => rfl) (Survey.kept_ofUnit unit file topLevel).untraced⟩
  have hanswered : Bound surveyed.defs final [] [] final :=
    answeredIn_preserves (Bound surveyed.defs final [] []) (requests surveyed)
      (fun id _ h => classify_shrinking id h) (fun ask _ h => answer_shrinking ask h) hstart
  exact hanswered.2 (.refl hanswered.1.formed)

end Units

end Evaluation

namespace Analysis

/-- The answers to the demands on a name shrink, if it is not bound to a definition, or if the
definition it is bound to answers with what is proven of it. -/
theorem answers_shrink (unit : Expr) (file : String) (options : Options) (name : NameId)
    (htame : Evaluation.Tame (Survey.ofUnit unit file options.topLevel).defs
      (Evaluation.finished (Survey.ofUnit unit file options.topLevel)) name) :
    (answersTo name (analyse unit file options).trace).Pairwise (· ⊆ ·) := by
  have hshrinking := Evaluation.answered_shrinking unit file options.topLevel
  obtain ⟨reporter, hfinished⟩ := Evaluation.checkMasks_reports
    (Evaluation.answeredIn (Survey.ofUnit unit file options.topLevel)
      (Evaluation.requests (Survey.ofUnit unit file options.topLevel)))
  rw [← Evaluation.finished_eq_checked] at hfinished
  rw [hfinished] at htame
  rw [trace_analyse, hfinished]
  dsimp only at hshrinking
  generalize Evaluation.answeredIn (Survey.ofUnit unit file options.topLevel)
    (Evaluation.requests (Survey.ofUnit unit file options.topLevel)) = answered at hshrinking htame ⊢
  exact hshrinking.answers name htame.of_reporting

/-- A name that is looked up where an integer is required, and then once more. -/
def consulted (value : Expr) : Expr :=
  let mark (id : Nat) : Mark := ⟨⟨id⟩, .nowhere⟩
  .frame (mark 5) [
    .of "x" value,
    .of "a" (.enforce (mark 3) (.lookup (mark 2) ["x"]) {.int}),
    .of "b" (.lookup (mark 4) ["x"])]

/-- A lookup that defines a name answers with what is known of the name that it means. -/
theorem answers_shrink_lookup :
    let unit := consulted (.lookup ⟨⟨0⟩, .nowhere⟩ ["y"])
    let surveyed := Survey.ofUnit unit "unit" (default : Options).topLevel
    Evaluation.Tame surveyed.defs (Evaluation.finished surveyed) ⟨0⟩ ∧
      {.int} ∈ answersTo ⟨0⟩ (analyse unit "unit" default).trace ∧
        (answersTo ⟨0⟩ (analyse unit "unit" default).trace).Pairwise (· ⊆ ·) := by
  intro unit surveyed
  have hdefined : (Evaluation.finished surveyed).tree.definition? ⟨0⟩ = some ⟨0⟩ := by
    decide +kernel
  have hmeant : (Evaluation.finished surveyed).defs.resolved.find? ⟨0⟩ = some ⟨3⟩ := by
    decide +kernel
  have hfree : (Evaluation.finished surveyed).tree.definition? ⟨3⟩ = none := by decide +kernel
  have hplaced : surveyed.defs.nodes.find? ⟨0⟩ =
      some ⟨.lookup ⟨⟨0⟩, .nowhere⟩ ["y"], ⟨1⟩⟩ := rfl
  have htame : Evaluation.Tame surveyed.defs (Evaluation.finished surveyed) ⟨0⟩ := by
    intro node hnode
    obtain rfl := Option.some.inj (hdefined.symm.trans hnode)
    refine .of_end hplaced trivial (by decide +kernel) fun other hdefers => ?_
    cases hdefers with
    | within hother hmem =>
        obtain rfl := Option.some.inj (hplaced.symm.trans hother)
        cases hmem
    | named hother hway hname hdefinition =>
        obtain rfl := Option.some.inj (hmeant.symm.trans hname)
        cases hfree.symm.trans hdefinition
  exact ⟨htame, by decide +kernel, answers_shrink unit "unit" default ⟨0⟩ htame⟩

/-- A conversion that defines a name answers with what it has in common with the demand. -/
theorem not_answers_shrink :
    ¬ ∀ (unit : Expr) (file : String) (options : Options) (name : NameId),
      (answersTo name (analyse unit file options).trace).Pairwise (· ⊆ ·) := by
  intro hall
  have hshrink := hall (consulted (.enforce ⟨⟨1⟩, .nowhere⟩ (.lookup ⟨⟨0⟩, .nowhere⟩ ["y"])
    ({.int} ∪ {.str}))) "unit" default ⟨0⟩
  revert hshrink
  decide +kernel

end Analysis

end FrameLang
