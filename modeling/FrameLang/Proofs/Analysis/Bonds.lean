import FrameLang.Proofs.Analysis.Honours

/-!
# A name and its definition

What is known of a bound name and what is proven of its definition are kept in two places.  A
demand on the name narrows the first before the definition is asked, the definition narrows the
second when its evaluation ends, and then the answer narrows the first (`follow_value_relates`).
A demand on the definition that does not come by way of the name narrows the second alone
(`evaluate_value_relates`).

This module shows that nothing else touches either of them.  The relation between the two is a
parameter throughout (`Relates`): whatever these two steps keep, an analysis keeps
(`answers_relate`).

## Strategy

Between a demand on the name and the answer to it, the two are out of step, and meanwhile the
definition is under evaluation.  Were the name demanded again before the answer is there, the
definition would be met again, and this does not happen to a calm one.  So while the definition is
under evaluation both stay as they are (`guards_active`), and only then can a demand on the name be
taken as one step (`guards_idle`).  These are two inductions on the depth of the evaluation; what
they have in common is the evaluation of a node other than the definition (`evaluate_relates`).

That no node leads to the definition and no other name is bound to it is part of `Bond`.
-/

namespace FrameLang

namespace Evaluation

open ScopeM

/-! ## Definitions -/

/-- A name is bound to a node in the end, and nothing else leads to this node: no other name is
bound to it, and no construct evaluates it.  The node is calm, and nothing is wrong. -/
structure Bond (layout : Layout) (final : Session Progress) (name : NameId) (value : NodeId) :
    Prop where
  clear : Clear layout final
  calm : Calm layout final value
  placed : (layout.nodes.find? value).isSome
  bound : (final.tree.name name).origin.definition? = some value
  listed : layout.bindings.find? value = some name
  sole : ∀ id, (final.tree.name id).origin.definition? = some value → id = name
  apart : ∀ node placement, layout.nodes.find? node = some placement →
    value ∉ placement.expr.way.heirs

/-- A node is an arithmetic operation. -/
def Operation (layout : Layout) (node : NodeId) : Prop :=
  ∃ placement left right, layout.nodes.find? node = some placement ∧
    placement.expr.way = .arithmetic left right

/-- A demand on a node may be answered so, given what is proven of the node: an operation answers
with nothing that is ruled out. -/
structure Answers (layout : Layout) (final : Session Progress) (node : NodeId)
    (proven demanded answer : Kinds) : Prop where
  honours : Honours layout final node demanded answer
  capped : Operation layout node → answer ⊆ proven

section Definitions

variable (layout : Layout) (final : Session Progress) (name : NameId) (value : NodeId)
  (tie : Kinds → Kinds → Prop)

/-- What is known of a name and what is proven of a node are tied together, unless the session in
view cannot be reached any more. -/
structure Relates (session : Session Progress) : Prop where
  formed : session.tree.Formed
  named : name.index < session.tree.names.size
  holds : Precedes session final →
    tie (session.tree.name name).origin.known (session.defs.kindsOf value)

/-- A definer keeps a name and a node tied together, as far as it evaluates other nodes, and also in
demands on the name. -/
structure Guards (active searching : List NodeId) (definer : Definer Progress) : Prop where
  nodes : ∀ id, id ≠ value → ∀ demanded unbox session, Standing layout active searching session →
    Relates final name value tie session →
      Relates final name value tie ((definer id demanded unbox).run session).2
  name : ∀ demanded unbox session, Standing layout active searching session →
    Relates final name value tie session →
      Relates final name value tie ((follow definer name demanded unbox).run session).2

end Definitions

/-! ## Steps elsewhere -/

section Steps

variable {final session before after : Session Progress} {name : NameId} {value : NodeId}
  {tie : Kinds → Kinds → Prop}

theorem Relates.later (h : Relates final name value tie before) (hprecedes : Precedes before after)
    (hknown : (after.tree.name name).origin.known = (before.tree.name name).origin.known)
    (hkinds : after.defs.kindsOf value = before.defs.kindsOf value) :
    Relates final name value tie after where
  formed := hprecedes.evolves.formed
  named := Nat.lt_of_lt_of_le h.named hprecedes.evolves.grows.size_names
  holds hfinal := by
    rw [hknown, hkinds]
    exact h.holds (hprecedes.trans hfinal)

theorem Relates.noting (h : Relates final name value tie session) (event : Event) :
    Relates final name value tie (session.noting event) :=
  h.later (.noting h.formed event) rfl rfl

theorem Relates.making (h : Relates final name value tie before) (hmaking : before.Making after) :
    Relates final name value tie after :=
  h.later (.making hmaking h.formed) (congrArg Origin.known (hmaking.origin h.named))
    (by rw [hmaking.defs])

theorem Relates.reporting (h : Relates final name value tie session) (error : Diagnostic) :
    Relates final name value tie (session.reporting (session.reporter.push error)) :=
  h.making (.reporting error)

theorem Relates.demanding (h : Relates final name value tie session) {id : NameId} (hid : id ≠ name)
    (demanded : Kinds) (unbox : Bool) :
    Relates final name value tie (session.demanding id demanded unbox) := by
  refine h.later (.demanding h.formed id demanded unbox) ?_ rfl
  rw [session.origin_demanding, if_neg hid]

theorem Relates.proving (h : Relates final name value tie session) {id : NameId} (hid : id ≠ name)
    (proven : Kinds) : Relates final name value tie (session.proving id proven) := by
  refine h.later (.proving h.formed id proven) ?_ rfl
  rw [session.origin_proving, if_neg hid]

theorem Relates.leaving (h : Relates final name value tie session) {node : NodeId}
    (hnode : node ≠ value) (proven : Kinds) :
    Relates final name value tie (Evaluation.leaving session node proven) :=
  h.later (.leaving h.formed ..) rfl
    ((Progress.kindsOf_prove ..).trans (if_neg hnode))

theorem Relates.resolving (h : Relates final name value tie session) {node : NodeId}
    (hnone : session.defs.resolved.find? node = none) (meant : NameId) :
    Relates final name value tie (Evaluation.resolving session node meant) :=
  h.later (.resolving h.formed hnone meant) rfl rfl

theorem Relates.ensureIntrinsic (h : Relates final name value tie session) (scope : ScopeId)
    (node : NodeId) (demanded : Kinds) (unbox : Bool) (span : Span) :
    Relates final name value tie
      ((ScopeM.ensureIntrinsic scope node demanded unbox span).run session).2 := by
  have hnames := names_ensureIntrinsic scope node demanded unbox span session
  refine h.later (.ensureIntrinsic h.formed ..) ?_ (by rw [defs_ensureIntrinsic])
  rw [ScopeTree.name, ScopeTree.name, hnames]

end Steps

/-! ## Demands and rules -/

section Demands

variable {layout : Layout} {final session : Session Progress} {name : NameId} {value : NodeId}
  {tie : Kinds → Kinds → Prop} {depth : Nat} {active searching : List NodeId}
  (hbond : Bond layout final name value)
include hbond

section Guarded

variable (hguards : Guards layout final name value tie active searching
  (evaluate layout depth active searching))
include hguards

theorem follow_relates (id : NameId) (demanded : Kinds) (unbox : Bool)
    (h : Standing layout active searching session)
    (hrelates : Relates final name value tie session) :
    Relates final name value tie
      ((follow (evaluate layout depth active searching) id demanded unbox).run session).2 := by
  induction id using NameId.strongInduction generalizing session with
  | step id ih =>
      by_cases hid : id = name
      · rw [hid]
        exact hguards.name demanded unbox session h hrelates
      · have hdemanding := h.demanding id demanded unbox
        have hdemanded := hrelates.demanding hid demanded unbox
        have hfollowed := follow_evolves (evaluate_sound layout depth active searching) id demanded
          unbox h.formed
        rw [run_follow] at hfollowed ⊢
        cases hanswer : (session.tree.name id).origin.answer demanded with
        | settled proven => exact hdemanded
        | refused known => exact hdemanded.reporting _
        | passOn source =>
            dsimp only
            split
            · next hlt => exact ih source hlt hdemanding hdemanded
            · exact hdemanded
        | define node =>
            obtain ⟨kinds, horigin⟩ := Origin.eq_bound_of_answer hanswer
            have hnoting := h.defining id node demanded unbox
            rw [hanswer] at hfollowed
            dsimp only at hfollowed ⊢
            by_cases hnode : node = value
            · -- another name that is bound to the node would be so in the end
              have hsize := ScopeTree.lt_size_of_not_junk
                (NameRecord.isJunk_eq_false.mpr fun heq => by rw [heq] at horigin; cases horigin)
              refine ⟨hfollowed.formed, Nat.lt_of_lt_of_le hrelates.named
                hfollowed.grows.size_names, fun hfinal => absurd (hbond.sole id ?_) hid⟩
              rw [((hfollowed.trans hfinal.evolves).grows.name id hsize).origin.definition?,
                horigin, ← hnode]
              rfl
            · have hnoted := hdemanded.noting (.defining node demanded unbox)
              exact (hguards.nodes node hnode demanded unbox _ hnoting hnoted).proving hid _

theorem ensure_relates (id : NameId) (demanded : Kinds) (unbox : Bool)
    (h : Standing layout active searching session)
    (hrelates : Relates final name value tie session) :
    Relates final name value tie
      ((ensure (evaluate layout depth active searching) id demanded unbox).run session).2 := by
  have hasking : Standing layout active searching (session.noting (.asked id demanded unbox)) :=
    h.noting trivial
  have hfollowed := follow_relates hbond hguards id demanded unbox hasking
    (hrelates.noting (.asked id demanded unbox))
  rw [run_ensure]
  exact hfollowed.noting _

theorem relates_sustained : Sustains (evaluate layout depth active searching) fun session =>
    Standing layout active searching session ∧ Relates final name value tie session where
  formed _ h := h.1.formed
  making _ _ h hmaking := ⟨h.1.making hmaking, h.2.making hmaking⟩
  ensure session id h _ := by
    obtain ⟨hstanding, hprecedes⟩ := ensure_standing depth id {.frame} false h.1
    have hensured := ensure_relates hbond hguards id {.frame} false h.1 h.2
    exact ⟨⟨hstanding, hensured⟩, hprecedes.evolves.grows.retains⟩

end Guarded

theorem resolve_relates {mark : Mark}
    (hduring : Guards layout final name value tie active (mark.id :: searching)
      (evaluate layout depth active (mark.id :: searching)))
    (scope : ScopeId) (path : List String) (h : Standing layout active searching session)
    (hrelates : Relates final name value tie session) :
    Relates final name value tie ((resolve (evaluate layout depth active (mark.id :: searching))
      searching scope mark path).run session).2 := by
  rw [run_resolve]
  cases hresolved : session.defs.resolved.find? mark.id with
  | some meant => exact hrelates
  | none =>
      dsimp only
      split
      · exact hrelates
      · next hid =>
        obtain ⟨hstanding, hfound⟩ := ((relates_sustained hbond hduring).lookup scope path mark.span
          ⟨h.beginning hid hresolved, hrelates.noting _⟩).reached
        exact hfound.resolving (hstanding.nested.unresolved mark.id List.mem_cons_self) _

theorem rule_relates {expr : Expr} {scope : ScopeId}
    (hagain : Guards layout final name value tie active searching
      (evaluate layout depth active searching))
    (hduring : Guards layout final name value tie active (expr.id :: searching)
      (evaluate layout depth active (expr.id :: searching)))
    (hplaced : layout.nodes.find? expr.id = some ⟨expr, scope⟩) (demanded : Kinds) (unbox : Bool)
    (h : Standing layout active searching session)
    (hrelates : Relates final name value tie session) :
    Relates final name value tie ((rule (evaluate layout depth active searching)
      (evaluate layout depth active (expr.id :: searching)) searching scope demanded unbox
      expr).run session).2 := by
  have hleaf : ∀ later natural, Relates final name value tie later →
      Relates final name value tie ((leaf expr.span natural demanded).run later).2 := by
    intro later natural hlater
    rw [run_leaf]
    split
    · exact hlater
    · exact hlater.reporting _
  have hnode : ∀ node ∈ expr.way.heirs, node ≠ value := fun node hmem heq =>
    hbond.apart expr.id _ hplaced (heq ▸ hmem)
  rw [run_rule]
  cases hway : expr.way with
  | leaf natural => exact hleaf session natural hrelates
  | lookup path =>
      have hresolved := resolve_relates hbond hduring scope path h hrelates
      obtain ⟨hstanding, -, -, -⟩ := resolve_standing depth scope expr.mark path h
      dsimp only
      cases ((resolve (evaluate layout depth active (expr.id :: searching)) searching scope
        expr.mark path).run session).1 with
      | some meant => exact ensure_relates hbond hagain meant demanded unbox hstanding hresolved
      | none => exact hresolved
  | coalesce primary fallback =>
      rw [hway] at hnode
      obtain ⟨hfallback, -⟩ := evaluate_standing depth fallback demanded unbox h
      have hfirst := hagain.nodes fallback (hnode _ (by simp [Way.heirs])) demanded unbox _ h
        hrelates
      exact hagain.nodes primary (hnode _ (by simp [Way.heirs])) _ unbox _ hfallback hfirst
  | choose consequent alternative =>
      rw [hway] at hnode
      obtain ⟨hconsequent, -⟩ := evaluate_standing depth consequent demanded unbox h
      have hfirst := hagain.nodes consequent (hnode _ (by simp [Way.heirs])) demanded unbox _ h
        hrelates
      exact hagain.nodes alternative (hnode _ (by simp [Way.heirs])) _ unbox _ hconsequent hfirst
  | arithmetic left right =>
      rw [hway] at hnode
      obtain ⟨hleft, -⟩ := evaluate_standing depth left .number true h
      have hfirst := hagain.nodes left (hnode _ (by simp [Way.heirs])) .number true _ h hrelates
      have hsecond := hagain.nodes right (hnode _ (by simp [Way.heirs])) .number true _ hleft hfirst
      exact (hsecond.ensureIntrinsic ..).ensureIntrinsic ..
  | enforce inner kinds =>
      rw [hway] at hnode
      have hfirst := hagain.nodes inner (hnode _ (by simp [Way.heirs])) kinds true _ h hrelates
      exact hleaf _ kinds hfirst
  | body node =>
      rw [hway] at hnode
      exact hagain.nodes node (hnode _ (by simp [Way.heirs])) demanded unbox _ h hrelates

/-- The evaluation of another node keeps a name and a node tied together if the evaluations inside
it do. -/
theorem evaluate_relates
    (hinner : ∀ id, id ∉ active → id ≠ value → (layout.nodes.find? id).isSome → ∀ searching,
      Guards layout final name value tie (id :: active) searching
        (evaluate layout depth (id :: active) searching))
    {id : NodeId} (hid : id ≠ value) (demanded : Kinds) (unbox : Bool)
    (h : Standing layout active searching session)
    (hrelates : Relates final name value tie session) :
    Relates final name value tie
      ((evaluate layout (depth + 1) active searching id demanded unbox).run session).2 := by
  rw [run_evaluate_succ]
  cases hplacement : layout.nodes.find? id with
  | none => exact hrelates
  | some placement =>
      obtain rfl := h.placed id placement hplacement
      dsimp only
      split
      · exact hrelates.noting _
      · next hactive =>
        have hguards := hinner placement.expr.id hactive hid (hplacement ▸ rfl)
        have hruled := rule_relates hbond (hguards searching)
          (hguards (placement.expr.id :: searching)) hplacement demanded unbox
          (h.entering hactive demanded) (hrelates.noting (.entered placement.expr.id demanded))
        exact hruled.leaving hid _

theorem Bond.definition? (hnamed : name.index < session.tree.names.size)
    (h : session.Evolves final) : (session.tree.name name).origin.definition? = some value := by
  rw [← (h.grows.name name hnamed).origin.definition?]
  exact hbond.bound

omit hbond in
theorem run_follow_bound (definer : Definer Progress)
    (h : (session.tree.name name).origin.definition? = some value) (demanded : Kinds)
    (unbox : Bool) :
    (follow definer name demanded unbox).run session =
      let defined := (definer value demanded unbox).run
        ((session.demanding name demanded unbox).noting (.defining value demanded unbox))
      (defined.1, defined.2.proving name defined.1) := by
  obtain ⟨kinds, horigin⟩ := Origin.definition?_eq_some_iff.mp h
  rw [run_follow, horigin]
  rfl

/-- While the node is under evaluation, neither the name nor the node changes. -/
theorem guards_active (hdepth : idle layout active < depth) (hactive : value ∈ active)
    (searching : List NodeId) :
    Guards layout final name value tie active searching
      (evaluate layout depth active searching) := by
  induction depth generalizing active searching with
  | zero => exact absurd hdepth (Nat.not_lt_zero _)
  | succ depth ih =>
      have hinner : ∀ id, id ∉ active → id ≠ value → (layout.nodes.find? id).isSome → ∀ searching,
          Guards layout final name value tie (id :: active) searching
            (evaluate layout depth (id :: active) searching) := by
        intro id hidle _ hsome
        obtain ⟨placement, hplacement⟩ := Option.isSome_iff_exists.mp hsome
        exact ih (Nat.lt_of_lt_of_le (idle_cons_lt hplacement hidle) (Nat.le_of_lt_succ hdepth))
          (List.mem_cons_of_mem _ hactive)
      refine ⟨fun id hid demanded unbox session h hrelates =>
        evaluate_relates hbond hinner hid demanded unbox h hrelates, ?_⟩
      intro demanded unbox session h hrelates
      have hfollowed := follow_evolves (evaluate_sound layout (depth + 1) active searching) name
        demanded unbox h.formed
      refine ⟨hfollowed.formed, Nat.lt_of_lt_of_le hrelates.named hfollowed.grows.size_names,
        fun hfinal => absurd ?_ (hbond.calm value .refl).1⟩
      -- the demand would meet the node again
      have hbound := hbond.definition? hrelates.named (hfollowed.trans hfinal.evolves)
      obtain ⟨placement, hplaced⟩ := Option.isSome_iff_exists.mp hbond.placed
      refine hfinal.evolves.trace.subset ?_
      rw [run_follow_bound _ hbound, run_evaluate_succ, hplaced]
      dsimp only
      rw [if_pos hactive]
      exact List.mem_cons_self

omit hbond in
/-- An operation is left with its answer. -/
theorem kindsOf_leaving_of_arithmetic (depth : Nat) {expr : Expr} {scope : ScopeId}
    {left right : NodeId} (hplaced : layout.nodes.find? expr.id = some ⟨expr, scope⟩)
    (hway : expr.way = .arithmetic left right) (during : Definer Progress) (demanded : Kinds)
    (unbox : Bool) (h : Standing layout active searching session) :
    let found := (rule (evaluate layout depth active searching) during searching scope demanded
      unbox expr).run session
    (leaving found.2 expr.id found.1).defs.kindsOf expr.id = found.1 := by
  obtain ⟨hleft, -⟩ := evaluate_standing depth left .number true h
  obtain ⟨hright, -⟩ := evaluate_standing depth right .number true hleft
  rw [run_rule, hway]
  have hweighed := weighed_weighing hright.balanced hplaced hway (arithmeticKinds_ne_empty
    ((evaluate layout depth active searching left .number true).run session).1
    ((evaluate layout depth active searching right .number true).run
      ((evaluate layout depth active searching left .number true).run session).2).1) demanded unbox
    expr.span
  exact (hweighed.kindsOf expr.id).trans (if_pos rfl)

/-- The evaluation of the node leaves the name as it is, and narrows what is proven of the node by
the answer. -/
theorem evaluate_value (hdepth : idle layout active < depth) (hidle : value ∉ active)
    (demanded : Kinds) (unbox : Bool) (h : Standing layout active searching session)
    (hnamed : name.index < session.tree.names.size) :
    let evaluated := (evaluate layout depth active searching value demanded unbox).run session
    Precedes evaluated.2 final →
      Answers layout final value (session.defs.kindsOf value) demanded evaluated.1 ∧
        (evaluated.2.tree.name name).origin.known = (session.tree.name name).origin.known ∧
          evaluated.2.defs.kindsOf value = (session.defs.kindsOf value).narrow evaluated.1 := by
  have hhonours := evaluate_honest hbond.clear hdepth searching value demanded unbox session h
    hbond.calm hbond.placed
  obtain ⟨placement, hplacement⟩ := Option.isSome_iff_exists.mp hbond.placed
  obtain rfl := h.placed value placement hplacement
  obtain ⟨depth, rfl⟩ := Nat.exists_eq_add_one_of_ne_zero (Nat.ne_zero_of_lt hdepth)
  have hlt := Nat.lt_of_lt_of_le (idle_cons_lt hplacement hidle) (Nat.le_of_lt_succ hdepth)
  have hentering := h.entering hidle demanded
  -- nothing happens to the name and to what is proven of the node before it is left
  have hentered : Relates final name placement.expr.id (fun known proven =>
      known = (session.tree.name name).origin.known ∧
        proven = session.defs.kindsOf placement.expr.id)
      (session.noting (.entered placement.expr.id demanded)) :=
    ⟨hentering.formed, hnamed, fun _ => ⟨rfl, rfl⟩⟩
  have hruled := rule_relates hbond (guards_active hbond hlt List.mem_cons_self searching)
    (guards_active hbond hlt List.mem_cons_self (placement.expr.id :: searching)) hplacement
    demanded unbox hentering hentered
  have hleft := fun left right (hway : placement.expr.way = .arithmetic left right) =>
    kindsOf_leaving_of_arithmetic depth hplacement hway
      (evaluate layout depth (placement.expr.id :: active) (placement.expr.id :: searching))
      demanded unbox hentering
  rw [run_evaluate_succ, hplacement] at hhonours ⊢
  dsimp only at hhonours hleft ⊢
  rw [if_neg hidle] at hhonours ⊢
  generalize (rule (evaluate layout depth (placement.expr.id :: active) searching)
    (evaluate layout depth (placement.expr.id :: active) (placement.expr.id :: searching)) searching
    placement.scope demanded unbox placement.expr).run
    (session.noting (.entered placement.expr.id demanded)) = found at hruled hleft hhonours ⊢
  intro hfinal
  have hleaving : Precedes found.2 (leaving found.2 placement.expr.id found.1) :=
    .leaving hruled.formed ..
  obtain ⟨hknown, hproven⟩ := hruled.holds (hleaving.trans hfinal)
  have hkinds : (leaving found.2 placement.expr.id found.1).defs.kindsOf placement.expr.id =
      (session.defs.kindsOf placement.expr.id).narrow found.1 := by
    rw [← hproven]
    exact (Progress.kindsOf_prove ..).trans (if_pos rfl)
  refine ⟨⟨hhonours hfinal, ?_⟩, hknown, hkinds⟩
  rintro ⟨other, left, right, hother, hway⟩
  obtain rfl := Option.some.inj (hplacement.symm.trans hother)
  have hall := hleft left right hway
  rw [← hall, hkinds]
  exact (Kinds.narrows_narrow _ _).subset

/-- A demand on the node that does not come by way of the name. -/
theorem evaluate_value_relates {tie' : Kinds → Kinds → Prop} {demanded : Kinds}
    (hstep : ∀ known proven answer, tie known proven →
      Answers layout final value proven demanded answer → tie' known (proven.narrow answer))
    (hdepth : idle layout active < depth) (hidle : value ∉ active) (unbox : Bool)
    (h : Standing layout active searching session)
    (hrelates : Relates final name value tie session) :
    Relates final name value tie'
      ((evaluate layout depth active searching value demanded unbox).run session).2 := by
  obtain ⟨hstanding, hprecedes⟩ := evaluate_standing depth value demanded unbox h
  refine ⟨hstanding.formed, Nat.lt_of_lt_of_le hrelates.named hprecedes.evolves.grows.size_names,
    fun hfinal => ?_⟩
  obtain ⟨hanswers, hknown, hproven⟩ :=
    evaluate_value hbond hdepth hidle demanded unbox h hrelates.named hfinal
  rw [hknown, hproven]
  exact hstep _ _ _ (hrelates.holds (hprecedes.trans hfinal)) hanswers

/-- A demand on the name narrows what is known of it, and then both by the answer. -/
theorem follow_value_relates {tie' : Kinds → Kinds → Prop} {demanded : Kinds}
    (hstep : ∀ known proven answer, tie known proven →
      Answers layout final value proven demanded answer →
        tie' ((known.narrow demanded).narrow answer) (proven.narrow answer))
    (hdepth : idle layout active < depth) (hidle : value ∉ active) (unbox : Bool)
    (h : Standing layout active searching session)
    (hrelates : Relates final name value tie session) :
    Relates final name value tie'
      ((follow (evaluate layout depth active searching) name demanded unbox).run session).2 := by
  have hfollowed := follow_evolves (evaluate_sound layout depth active searching) name demanded
    unbox h.formed
  refine ⟨hfollowed.formed, Nat.lt_of_lt_of_le hrelates.named hfollowed.grows.size_names,
    fun hfinal => ?_⟩
  have hbound := hbond.definition? hrelates.named (hfollowed.trans hfinal.evolves)
  obtain ⟨kinds, horigin⟩ := Origin.definition?_eq_some_iff.mp hbound
  have hdemanding := h.defining name value demanded unbox
  have hprecedes : Precedes session ((session.demanding name demanded unbox).noting
      (.defining value demanded unbox)) :=
    (Precedes.demanding h.formed name demanded unbox).trans
      (.noting (h.demanding name demanded unbox).formed _)
  obtain ⟨hstanding, hlater⟩ := evaluate_standing depth value demanded unbox hdemanding
  have hevaluated := evaluate_value hbond hdepth hidle demanded unbox hdemanding
    (Nat.lt_of_lt_of_le hrelates.named hprecedes.evolves.grows.size_names)
  rw [run_follow_bound _ hbound] at hfinal ⊢
  dsimp only at hfinal hevaluated ⊢
  generalize (evaluate layout depth active searching value demanded unbox).run
    ((session.demanding name demanded unbox).noting (.defining value demanded unbox)) = defined
    at hfinal hstanding hlater hevaluated ⊢
  have hproving : Precedes defined.2 (defined.2.proving name defined.1) :=
    .proving hstanding.formed ..
  obtain ⟨hanswers, hknown, hproven⟩ := hevaluated (hproving.trans hfinal)
  have hdemanded : (((session.demanding name demanded unbox).noting
      (.defining value demanded unbox)).tree.name name).origin.known =
        (session.tree.name name).origin.known.narrow demanded := by
    change ((session.demanding name demanded unbox).tree.name name).origin.known = _
    rw [session.origin_demanding, if_pos rfl, horigin]
    rfl
  have hsettled : ((defined.2.proving name defined.1).tree.name name).origin.known =
      (defined.2.tree.name name).origin.known.narrow defined.1 := by
    obtain ⟨others, hothers⟩ := Origin.definition?_eq_some_iff.mp
      (hbond.definition? (Nat.lt_of_lt_of_le hrelates.named
        (hprecedes.trans hlater).evolves.grows.size_names) (hproving.trans hfinal).evolves)
    rw [defined.2.origin_proving, if_pos rfl, hothers]
    rfl
  rw [hsettled, hknown, hdemanded]
  change tie' _ (defined.2.defs.kindsOf value)
  rw [hproven]
  exact hstep _ _ _
    (hrelates.holds (hprecedes.trans (hlater.trans (hproving.trans hfinal)))) hanswers

/-- Elsewhere, and in demands on the name, a tie is kept that every demand on the name keeps. -/
theorem guards_idle
    (hstep : ∀ known proven demanded answer, tie known proven →
      Answers layout final value proven demanded answer →
        tie ((known.narrow demanded).narrow answer) (proven.narrow answer))
    (hdepth : idle layout active < depth) (hidle : value ∉ active) (searching : List NodeId) :
    Guards layout final name value tie active searching
      (evaluate layout depth active searching) := by
  induction depth generalizing active searching with
  | zero => exact absurd hdepth (Nat.not_lt_zero _)
  | succ depth ih =>
      have hinner : ∀ id, id ∉ active → id ≠ value → (layout.nodes.find? id).isSome → ∀ searching,
          Guards layout final name value tie (id :: active) searching
            (evaluate layout depth (id :: active) searching) := by
        intro id hnot hid hsome
        obtain ⟨placement, hplacement⟩ := Option.isSome_iff_exists.mp hsome
        refine ih (Nat.lt_of_lt_of_le (idle_cons_lt hplacement hnot) (Nat.le_of_lt_succ hdepth)) ?_
        rw [List.mem_cons, not_or]
        exact ⟨Ne.symm hid, hidle⟩
      refine ⟨fun id hid demanded unbox session h hrelates =>
        evaluate_relates hbond hinner hid demanded unbox h hrelates, ?_⟩
      exact fun demanded unbox session h hrelates => follow_value_relates hbond
        (fun known proven answer => hstep known proven demanded answer) hdepth hidle unbox h
        hrelates

end Demands

/-! ## Requests -/

section Requests

variable {layout : Layout} {final session : Session Progress} {name : NameId} {value : NodeId}
  {tie : Kinds → Kinds → Prop} (hbond : Bond layout final name value)
include hbond

section Guarded

variable (hstep : ∀ known proven demanded answer, tie known proven →
  Answers layout final value proven demanded answer →
    tie ((known.narrow demanded).narrow answer) (proven.narrow answer))
include hstep

theorem classify_relates (id : NodeId) (h : Standing layout [] [] session)
    (hrelates : Relates final name value tie session) :
    Relates final name value tie ((classify layout id).run session).2 := by
  rw [run_classify]
  cases hplaced : layout.nodes.find? id with
  | none => exact hrelates
  | some placement =>
      obtain rfl := h.placed id placement hplaced
      dsimp only
      cases placement.expr.way with
      | lookup path =>
          exact resolve_relates hbond
            (guards_idle hbond hstep (idle_lt_depthOf layout []) List.not_mem_nil
              [placement.expr.mark.id]) placement.scope path h hrelates
      | _ => exact hrelates

/-- A request that does not ask for the node apart from the name. -/
theorem answer_relates {ask : Ask} (hother : ∀ kinds, ask ≠ .node value kinds)
    (h : Standing layout [] [] session) (hrelates : Relates final name value tie session) :
    Relates final name value tie ((answer layout ask).run session).2 := by
  have hguards := guards_idle hbond hstep (idle_lt_depthOf layout []) List.not_mem_nil []
  cases ask with
  | node id kinds =>
      refine hguards.nodes id (fun heq => ?_) kinds false session h hrelates
      exact hother kinds (heq ▸ rfl)
  | definition other =>
      unfold answer
      dsimp only
      cases hlisted : layout.bindings.find? other with
      | some id => exact ensure_relates hbond hguards id .any false h hrelates
      | none =>
          refine hguards.nodes other (fun heq => ?_) .any false session h hrelates
          cases hlisted.symm.trans (heq ▸ hbond.listed)

end Guarded

/-- The request of the node by itself. -/
theorem answer_node_relates {tie' : Kinds → Kinds → Prop} {demanded : Kinds}
    (hstep : ∀ known proven answer, tie known proven →
      Answers layout final value proven demanded answer → tie' known (proven.narrow answer))
    (h : Standing layout [] [] session) (hrelates : Relates final name value tie session) :
    Relates final name value tie' ((answer layout (.node value demanded)).run session).2 :=
  evaluate_value_relates hbond hstep (idle_lt_depthOf layout []) List.not_mem_nil false h hrelates

/-- The request of the node on behalf of the name. -/
theorem answer_definition_relates {tie' : Kinds → Kinds → Prop}
    (hstep : ∀ known proven answer, tie known proven →
      Answers layout final value proven .any answer →
        tie' ((known.narrow .any).narrow answer) (proven.narrow answer))
    (h : Standing layout [] [] session) (hrelates : Relates final name value tie session) :
    Relates final name value tie' ((answer layout (.definition value)).run session).2 := by
  have hasking : Standing layout [] [] (session.noting (.asked name .any false)) := h.noting trivial
  have hfollowed := follow_value_relates hbond hstep (idle_lt_depthOf layout []) List.not_mem_nil
    false hasking (hrelates.noting (.asked name .any false))
  unfold answer
  dsimp only
  rw [hbond.listed]
  dsimp only
  rw [run_bind, run_ensure]
  exact hfollowed.noting _

/-- Several requests, some of which may ask for the node apart from the name. -/
theorem answers_relate
    (hstep : ∀ known proven demanded answer, tie known proven →
      Answers layout final value proven demanded answer →
        tie ((known.narrow demanded).narrow answer) (proven.narrow answer)) (asks : List Ask)
    (hnode : ∀ demanded, .node value demanded ∈ asks → ∀ known proven answer, tie known proven →
      Answers layout final value proven demanded answer → tie known (proven.narrow answer))
    (h : Standing layout [] [] session) (hrelates : Relates final name value tie session) :
    Standing layout [] [] ((asks.forM (answer layout)).run session).2 ∧
      Relates final name value tie ((asks.forM (answer layout)).run session).2 := by
  refine forM_preserves (fun session => Standing layout [] [] session ∧
    Relates final name value tie session) asks (fun ask hmem _ h => ?_) ⟨h, hrelates⟩
  refine ⟨(answer_standing ask h.1).1, ?_⟩
  by_cases hask : ∃ demanded, ask = .node value demanded
  · obtain ⟨demanded, rfl⟩ := hask
    exact answer_node_relates hbond (hnode demanded hmem) h.1 h.2
  · exact answer_relates hbond hstep (fun demanded heq => hask ⟨demanded, heq⟩) h.1 h.2

end Requests

end Evaluation

end FrameLang
