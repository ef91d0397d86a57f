import FrameLang.Proofs.Analysis.Agreement

/-!
# Undisturbed evaluations

If nothing is wrong with a unit, the evaluation of a node answers a demand for some kinds with some
of these kinds, and not with none, unless a node is met again in the meantime that is being
evaluated already (`Analysis.undisturbed_honours`).  Such a node answers with what is proven of it
so far, which has nothing to do with the demand.

Unlike the bounds on all answers of a node (`Evaluation.Honours`), this is about a single
evaluation: the node may be met again in another one, and so may the nodes that it leads to.

## Strategy

There are two inductions on the depth of the evaluation.  The first one is about what an evaluation
answers (`evaluate_fair`).  It goes through the constructs, and through the demands that lookups
make on names (`follow_fair`).  The second one is about the trace: what an evaluation adds to it
has, for each evaluation that begins in it, the end of the same evaluation as well, and the answer
given there is a fair one (`evaluate_since`).  Events that are neither the beginning nor the end of
an evaluation do not matter to this, so demands and lookups only pass it on.

As in other bounds on answers, sessions are looked at with the final session in view.
-/

namespace FrameLang

/-! ## Events -/

/-- A demand is answered with some of the demanded kinds. -/
structure Kinds.Honoured (demanded answer : Kinds) : Prop where
  nonempty : answer ≠ ∅
  within : answer ⊆ demanded

section Kinds

variable {known other demanded answer : Kinds}

theorem Kinds.honoured_inter (h : known.meets demanded = true) :
    demanded.Honoured (known ∩ demanded) := by
  obtain ⟨kind, hknown, hdemanded⟩ := meets_iff.mp h
  exact ⟨ne_empty_iff.mpr ⟨kind, mem_inter.mpr ⟨hknown, hdemanded⟩⟩, inter_subset_right _ _⟩

theorem Kinds.Honoured.union (h : demanded.Honoured answer) (h' : demanded.Honoured other) :
    demanded.Honoured (answer ∪ other) := by
  obtain ⟨kind, hkind⟩ := ne_empty_iff.mp h.nonempty
  refine ⟨ne_empty_iff.mpr ⟨kind, mem_union.mpr (.inl hkind)⟩, subset_iff.mpr fun kind hkind => ?_⟩
  rcases mem_union.mp hkind with hkind | hkind
  · exact subset_iff.mp h.within kind hkind
  · exact subset_iff.mp h'.within kind hkind

/-- Whatever the primary branch answers, the fallback is enough. -/
theorem Kinds.Honoured.coalesced (h : demanded.Honoured answer) (primary : Kinds) :
    demanded.Honoured (coalesced primary answer demanded) := by
  obtain ⟨hwithin, hsubset⟩ := Evaluation.coalesced_of_subset primary h.nonempty h.within
  obtain ⟨kind, hkind⟩ := ne_empty_iff.mp h.nonempty
  exact ⟨ne_empty_iff.mpr ⟨kind, subset_iff.mp hsubset kind hkind⟩, hwithin⟩

end Kinds

/-- The evaluation of a node, which has begun before some events, ends with one of them.  If
something was demanded and no node was met again until then, the demand has been honoured. -/
def Returned (node : NodeId) (demanded : Kinds) (events : List Event) : Prop :=
  ∃ later proven during, events = later ++ .left node proven :: during ∧
    (∀ kinds, .left node kinds ∉ during) ∧
      (demanded ≠ ∅ → (∀ other, .reentered other ∉ during) → demanded.Honoured proven)

/-- Every evaluation that begins with one of some events ends with one of those after it. -/
def Complete (events : List Event) : Prop :=
  ∀ newer node demanded earlier, events = newer ++ .entered node demanded :: earlier →
    Returned node demanded newer

/-- True of the events that are neither the beginning nor the end of an evaluation. -/
def Event.Inner : Event → Prop
  | entered .. | left .. => False
  | _ => True

section Events

variable {events newer older : List Event} {node : NodeId} {demanded proven : Kinds}

theorem Returned.prepend (h : Returned node demanded events) (newer : List Event) :
    Returned node demanded (newer ++ events) := by
  obtain ⟨later, proven, during, rfl, hrest⟩ := h
  exact ⟨newer ++ later, proven, during, by simp, hrest⟩

theorem complete_nil : Complete [] := fun newer node demanded earlier h => by simp at h

theorem Complete.append (h : Complete newer) (h' : Complete older) : Complete (newer ++ older) := by
  intro after node demanded earlier heq
  rcases List.append_eq_append_iff.mp heq with ⟨middle, hafter, hrest⟩ | ⟨middle, hafter, hrest⟩
  · rw [hafter]
    exact (h' middle node demanded earlier hrest).prepend newer
  · cases middle with
    | nil =>
        rw [List.append_nil] at hafter
        rw [← hafter]
        have hown := h' [] node demanded earlier hrest.symm
        simpa using hown.prepend newer
    | cons event rest =>
        obtain ⟨rfl, rfl⟩ := List.cons.inj hrest
        exact h after node demanded rest hafter

theorem complete_inner {event : Event} (h : event.Inner) : Complete [event] := by
  intro newer node demanded earlier heq
  have hmem : .entered node demanded ∈ [event] := heq ▸ by simp
  obtain rfl := List.mem_singleton.mp hmem
  cases h

/-- The events of an evaluation, from its beginning to its end. -/
theorem Complete.evaluated (h : Complete events) (hleft : ∀ kinds, .left node kinds ∉ events)
    (hfair : demanded ≠ ∅ → (∀ other, .reentered other ∉ events) → demanded.Honoured proven) :
    Complete (.left node proven :: (events ++ [.entered node demanded])) := by
  have hown : Returned node demanded (.left node proven :: events) :=
    ⟨[], proven, events, rfl, hleft, hfair⟩
  intro newer other kinds earlier heq
  cases newer with
  | nil => cases heq
  | cons event rest =>
      obtain ⟨rfl, hrest⟩ := List.cons.inj heq
      rcases List.append_eq_append_iff.mp hrest with ⟨middle, hafter, hbegun⟩ |
        ⟨middle, hafter, hbegun⟩
      · cases middle with
        | nil =>
            obtain ⟨heq, -⟩ := List.cons.inj hbegun
            cases heq
            rwa [hafter, List.append_nil]
        | cons event middle => simp at hbegun
      · cases middle with
        | nil =>
            obtain ⟨heq, -⟩ := List.cons.inj hbegun
            cases heq
            rwa [hafter, List.append_nil] at hown
        | cons event middle =>
            obtain ⟨rfl, -⟩ := List.cons.inj hbegun
            exact (h rest other kinds middle hafter).prepend [.left node proven]

end Events

namespace Evaluation

open ScopeM

/-! ## Sessions -/

/-- No node has been met again from one session to a later one. -/
def Undisturbed (before after : Session Progress) : Prop :=
  ∀ during, after.trace = during ++ before.trace → ∀ node, .reentered node ∉ during

/-- Neither has it in between. -/
theorem Undisturbed.within {first second third fourth : Session Progress}
    (h : Undisturbed first fourth) (hfirst : first.trace <:+ second.trace)
    (hthird : third.trace <:+ fourth.trace) : Undisturbed second third := by
  intro during hduring node hmem
  obtain ⟨earlier, hearlier⟩ := hfirst
  obtain ⟨later, hlater⟩ := hthird
  refine h (later ++ (during ++ earlier)) ?_ node (by simp [hmem])
  rw [← hlater, hduring, ← hearlier]
  simp

/-! ## Answers -/

/-- An evaluation honours the demand unless it is disturbed, if nothing goes wrong. -/
def Fair (layout : Layout) (final : Session Progress) (active searching : List NodeId)
    (definer : Definer Progress) : Prop :=
  ∀ id demanded unbox session, Standing layout active searching session → demanded ≠ ∅ →
    Precedes ((definer id demanded unbox).run session).2 final →
      Undisturbed session ((definer id demanded unbox).run session).2 →
        demanded.Honoured ((definer id demanded unbox).run session).1

section Demands

variable {layout : Layout} {final session : Session Progress} {depth : Nat}
  {active searching : List NodeId} (hclear : Clear layout final)
  (hdefiner : Fair layout final active searching (evaluate layout depth active searching))
include hclear hdefiner

theorem follow_fair (id : NameId) {demanded : Kinds} (hdemanded : demanded ≠ ∅) (unbox : Bool)
    (h : Standing layout active searching session) (hlive : session.tree.isJunk id = false) :
    let followed := (follow (evaluate layout depth active searching) id demanded unbox).run session
    Precedes followed.2 final → Undisturbed session followed.2 →
      demanded.Honoured followed.1 := by
  intro followed
  have hfollows : Follows _ demanded unbox id session followed :=
    follows_follow _ id demanded unbox h.formed
  clear_value followed
  induction hfollows with
  | settled id hanswer =>
      intro _ _
      obtain ⟨hmeets, rfl⟩ := Origin.of_settled (NameRecord.isJunk_eq_false.mp hlive) hanswer
      exact Kinds.honoured_inter hmeets
  | refused id _ =>
      intro hfinal
      exact absurd (hfinal.evolves.reporter.clean hclear.clean)
        (Reporter.totalErrors_push_ne_zero h.counts _)
  | delegated id source horigin _ ih =>
      obtain ⟨-, hjunk, -⟩ := h.formed.source id source (by rw [horigin]; rfl)
      have hevolves := Session.Evolves.demanding h.formed id demanded unbox
      exact ih (h.demanding id demanded unbox) (hevolves.grows.retains.not_junk hjunk)
  | bound id node _ hdefined =>
      have hnoting := h.defining id node demanded unbox
      have hevaluated := (evaluate_standing depth node demanded unbox hnoting).1
      have hhonoured := hdefiner node demanded unbox _ hnoting hdemanded
      rw [hdefined] at hevaluated hhonoured
      intro hfinal hundisturbed
      exact hhonoured ((Precedes.proving hevaluated.formed id _).trans hfinal)
        (hundisturbed.within (List.suffix_cons _ _) (List.suffix_refl _))

theorem ensure_fair (id : NameId) {demanded : Kinds} (hdemanded : demanded ≠ ∅) (unbox : Bool)
    (h : Standing layout active searching session) (hlive : session.tree.isJunk id = false) :
    let ensured := (ensure (evaluate layout depth active searching) id demanded unbox).run session
    Precedes ensured.2 final → Undisturbed session ensured.2 →
      demanded.Honoured ensured.1 := by
  have hasking : Standing layout active searching (session.noting (.asked id demanded unbox)) :=
    h.noting trivial
  have hfollowing := follow_evolves (evaluate_sound layout depth active searching) id demanded
    unbox hasking.formed
  have hfair := follow_fair hclear hdefiner id hdemanded unbox hasking hlive
  rw [run_ensure]
  dsimp only at hfair ⊢
  intro hfinal hundisturbed
  exact hfair ((Precedes.noting hfollowing.formed _).trans hfinal)
    (hundisturbed.within (List.suffix_cons _ _) (List.suffix_cons _ _))

end Demands

section Rules

variable {layout : Layout} {final session : Session Progress} {depth : Nat}
  {active searching : List NodeId} (hclear : Clear layout final)
include hclear

theorem rule_fair {expr : Expr} {scope : ScopeId}
    (hagain : Fair layout final active searching (evaluate layout depth active searching))
    (hplaced : layout.nodes.find? expr.id = some ⟨expr, scope⟩) {demanded : Kinds}
    (hdemanded : demanded ≠ ∅) (unbox : Bool) (h : Standing layout active searching session) :
    let found := (rule (evaluate layout depth active searching)
      (evaluate layout depth active (expr.id :: searching)) searching scope demanded unbox
      expr).run session
    Precedes (leaving found.2 expr.id found.1) final → Undisturbed session found.2 →
      demanded.Honoured found.1 := by
  rw [run_rule]
  cases hway : expr.way with
  | leaf natural =>
      intro found hfinal _
      have hmeets := leaf_serves h.counts (hfinal.evolves.reporter.clean hclear.clean)
      change demanded.Honoured ((leaf expr.span natural demanded).run session).1
      rw [run_leaf, if_pos hmeets]
      exact Kinds.honoured_inter hmeets
  | lookup path =>
      obtain ⟨hstanding, hprecedes, hmeans, -⟩ := resolve_standing depth scope expr.mark path h
      have hid : expr.mark.id = expr.id := rfl
      rw [hid] at hmeans hstanding hprecedes
      dsimp only at hmeans ⊢
      generalize (resolve (evaluate layout depth active (expr.id :: searching)) searching scope
        expr.mark path).run session = found at hmeans hstanding hprecedes ⊢
      cases hname : found.1 with
      | none => exact fun _ _ => ⟨hdemanded, Kinds.subset_refl _⟩
      | some name =>
          obtain ⟨hensured, hlater⟩ := ensure_standing depth name demanded unbox hstanding
          have hfair := ensure_fair hclear hagain name hdemanded unbox hstanding
          dsimp only at hensured hlater hfair ⊢
          intro hleft hundisturbed
          have hfinal := (Precedes.leaving hensured.formed _ _).trans hleft
          have hlive :=
            hclear.not_junk hplaced hstanding (hlater.trans hfinal) (hmeans name hname)
          exact hfair hlive hfinal (hundisturbed.within hprecedes.evolves.trace (List.suffix_refl _))
  | coalesce primary fallback =>
      have hfallback := evaluate_standing depth fallback demanded unbox h
      have hprimary := evaluate_standing depth primary (demanded ∪ {.unit}) unbox hfallback.1
      dsimp only
      intro hleft hundisturbed
      have hfirst := hagain fallback demanded unbox session h hdemanded
        (hprimary.2.trans ((Precedes.leaving hprimary.1.formed _ _).trans hleft))
        (hundisturbed.within (List.suffix_refl _) hprimary.2.evolves.trace)
      exact hfirst.coalesced _
  | choose consequent alternative =>
      have hconsequent := evaluate_standing depth consequent demanded unbox h
      have halternative := evaluate_standing depth alternative demanded unbox hconsequent.1
      dsimp only
      intro hleft hundisturbed
      have hlast := (Precedes.leaving halternative.1.formed _ _).trans hleft
      have hfirst := hagain consequent demanded unbox session h hdemanded
        (halternative.2.trans hlast)
        (hundisturbed.within (List.suffix_refl _) halternative.2.evolves.trace)
      have hsecond := hagain alternative demanded unbox _ hconsequent.1 hdemanded hlast
        (hundisturbed.within hconsequent.2.evolves.trace (List.suffix_refl _))
      rw [narrow_union hfirst.nonempty hfirst.within hsecond.within]
      exact hfirst.union hsecond
  | arithmetic left right =>
      have hleft := evaluate_standing depth left .number true h
      have hright := evaluate_standing depth right .number true hleft.1
      have hnatural := arithmeticKinds_ne_empty
        ((evaluate layout depth active searching left .number true).run session).1
        ((evaluate layout depth active searching right .number true).run
          ((evaluate layout depth active searching left .number true).run session).2).1
      dsimp only
      generalize arithmeticKinds _ _ = natural at hnatural ⊢
      have hweighed := weighed_weighing hright.1.balanced hplaced hway hnatural demanded unbox
        expr.span
      intro hfinal _
      obtain ⟨-, hwithin⟩ := hweighed.met hright.1.counts
        (hfinal.evolves.reporter.clean hclear.clean)
      -- the entry of the node when it is left is the answer, and no entry is empty
      have hproven := (hweighed.kindsOf expr.id).trans (if_pos rfl)
      exact ⟨hproven ▸ hweighed.balanced.inhabited expr.id, hwithin⟩
  | enforce value kinds =>
      have hvalue := evaluate_standing depth value kinds true h
      dsimp only
      intro hfinal _
      have hmeets := leaf_serves hvalue.1.counts (hfinal.evolves.reporter.clean hclear.clean)
      rw [run_leaf, if_pos hmeets]
      exact Kinds.honoured_inter hmeets
  | body node =>
      have hbody := evaluate_standing depth node demanded unbox h
      dsimp only
      exact fun hleft hundisturbed => hagain node demanded unbox session h hdemanded
        ((Precedes.leaving hbody.1.formed _ _).trans hleft) hundisturbed

theorem evaluate_fair (depth : Nat) (active searching : List NodeId) :
    Fair layout final active searching (evaluate layout depth active searching) := by
  induction depth generalizing active searching with
  | zero => exact fun _ demanded _ _ _ hdemanded _ _ => ⟨hdemanded, Kinds.subset_refl _⟩
  | succ depth ih =>
      intro id demanded unbox session h hdemanded
      rw [run_evaluate_succ]
      cases hplacement : layout.nodes.find? id with
      | none => exact fun _ _ => ⟨hdemanded, Kinds.subset_refl _⟩
      | some placement =>
          obtain rfl := h.placed id placement hplacement
          dsimp only
          by_cases hactive : placement.expr.id ∈ active
          · rw [if_pos hactive]
            exact fun _ hundisturbed =>
              absurd List.mem_cons_self (hundisturbed [.reentered placement.expr.id] rfl _)
          · rw [if_neg hactive]
            have hentering := h.entering hactive demanded
            have hruled := rule_fair hclear (ih (placement.expr.id :: active) searching) hplacement
              hdemanded unbox hentering
            exact fun hfinal hundisturbed => hruled hfinal
              (hundisturbed.within (List.suffix_cons _ _) (List.suffix_cons _ _))

end Rules

/-! ## Stretches of the trace -/

/-- What has been added to the trace since some events: every evaluation that has begun has come to
its end, and those that were going on before still are. -/
structure Since (final : Session Progress) (active : List NodeId) (events : List Event)
    (session : Session Progress) : Prop where
  holds : Precedes session final → ∃ stretch, session.trace = stretch ++ events ∧
    Complete stretch ∧ ∀ node ∈ active, ∀ kinds, .left node kinds ∉ stretch

/-- A definer begins no evaluation without coming to its end. -/
def Completes (layout : Layout) (final : Session Progress) (active searching : List NodeId)
    (definer : Definer Progress) : Prop :=
  ∀ id demanded unbox session events, Standing layout active searching session →
    Since final active events session →
      Since final active events ((definer id demanded unbox).run session).2

section Steps

variable {final session before after : Session Progress} {active : List NodeId}
  {events : List Event}

theorem since_self (final : Session Progress) (active : List NodeId) (session : Session Progress) :
    Since final active session.trace session :=
  ⟨fun _ => ⟨[], rfl, complete_nil, fun _ _ _ => List.not_mem_nil⟩⟩

theorem Since.later (h : Since final active events before) (hprecedes : Precedes before after)
    (htrace : after.trace = before.trace ∨
      ∃ event : Event, event.Inner ∧ after.trace = event :: before.trace) :
    Since final active events after := by
  refine ⟨fun hfinal => ?_⟩
  obtain ⟨stretch, hstretch, hcomplete, hleft⟩ := h.holds (hprecedes.trans hfinal)
  rcases htrace with htrace | ⟨event, hevent, htrace⟩
  · exact ⟨stretch, htrace.trans hstretch, hcomplete, hleft⟩
  · refine ⟨event :: stretch, by rw [htrace, hstretch]; rfl,
      (complete_inner hevent).append hcomplete, fun node hnode kinds hmem => ?_⟩
    rcases List.mem_cons.mp hmem with rfl | hmem
    · exact hevent
    · exact hleft node hnode kinds hmem

theorem Since.noting (h : Since final active events session) (hformed : session.tree.Formed)
    {event : Event} (hevent : event.Inner) : Since final active events (session.noting event) :=
  h.later (.noting hformed event) (.inr ⟨event, hevent, rfl⟩)

theorem Since.making (h : Since final active events before) (hformed : before.tree.Formed)
    (hmaking : before.Making after) : Since final active events after :=
  h.later (.making hmaking hformed) (.inl hmaking.trace)

theorem Since.ensureIntrinsic (h : Since final active events session)
    (hformed : session.tree.Formed) (scope : ScopeId) (node : NodeId) (demanded : Kinds)
    (unbox : Bool) (span : Span) : Since final active events
      ((ScopeM.ensureIntrinsic scope node demanded unbox span).run session).2 :=
  h.later (.ensureIntrinsic hformed ..) (.inl (trace_ensureIntrinsic ..))

theorem Since.leaf (h : Since final active events session) (hformed : session.tree.Formed)
    (span : Span) (natural demanded : Kinds) :
    Since final active events ((leaf span natural demanded).run session).2 := by
  rw [run_leaf]
  split
  · exact h
  · exact h.making hformed (.reporting _)

/-- An evaluation has come to its end that had begun after a stretch. -/
theorem Since.evaluated (h : Since final active events session) {node : NodeId} {demanded : Kinds}
    (hidle : node ∉ active) {proven : Kinds}
    (hprecedes : Precedes session (leaving before node proven))
    (hinside : Since final (node :: active) (.entered node demanded :: session.trace) before)
    (hfair : demanded ≠ ∅ → Precedes (leaving before node proven) final →
      Undisturbed session (leaving before node proven) → demanded.Honoured proven) :
    Since final active events (leaving before node proven) := by
  refine ⟨fun hfinal => ?_⟩
  have hformed : before.tree.Formed := hprecedes.evolves.formed
  have hleaving : Precedes before (leaving before node proven) :=
    .leaving hformed ..
  obtain ⟨older, holder, hbefore, hleft⟩ := h.holds (hprecedes.trans hfinal)
  obtain ⟨inner, hinner, hcomplete, hinnerleft⟩ := hinside.holds (hleaving.trans hfinal)
  have htrace : (leaving before node proven).trace =
      (.left node proven :: (inner ++ [.entered node demanded])) ++ session.trace := by
    change .left node proven :: before.trace = _
    rw [hinner]
    simp
  have hown : Complete (.left node proven :: (inner ++ [.entered node demanded])) := by
    refine hcomplete.evaluated (hinnerleft node List.mem_cons_self) fun hne hundisturbed => ?_
    refine hfair hne hfinal fun during hduring other hmem => ?_
    obtain rfl := List.append_cancel_right (hduring.symm.trans htrace)
    simp [hundisturbed] at hmem
  refine ⟨(.left node proven :: (inner ++ [.entered node demanded])) ++ older,
    by rw [htrace, holder, List.append_assoc], hown.append hbefore,
    fun other hother kinds hmem => ?_⟩
  rcases List.mem_append.mp hmem with hmem | hmem
  · have hne : other ≠ node := fun heq => hidle (heq ▸ hother)
    simp [hinnerleft other (List.mem_cons_of_mem _ hother) kinds, hne] at hmem
  · exact hleft other hother kinds hmem

end Steps

section Demands

variable {layout : Layout} {final session : Session Progress} {depth : Nat}
  {active searching : List NodeId} {events : List Event}

section Definers

variable (hdefiner : Completes layout final active searching
  (evaluate layout depth active searching))
include hdefiner

theorem follow_since (id : NameId) (demanded : Kinds) (unbox : Bool)
    (h : Standing layout active searching session) (hsince : Since final active events session) :
    Since final active events
      ((follow (evaluate layout depth active searching) id demanded unbox).run session).2 := by
  have hfollows := follows_follow (evaluate layout depth active searching) id demanded unbox
    h.formed
  generalize (follow _ id demanded unbox).run session = followed at hfollows ⊢
  induction hfollows with
  | settled id _ => exact hsince.later (.demanding h.formed id demanded unbox) (.inl rfl)
  | refused id _ =>
      have hdemanded := hsince.later (.demanding h.formed id demanded unbox) (.inl rfl)
      exact hdemanded.making (h.demanding id demanded unbox).formed (.reporting _)
  | delegated id source _ _ ih =>
      exact ih (h.demanding id demanded unbox)
        (hsince.later (.demanding h.formed id demanded unbox) (.inl rfl))
  | @bound id node session _ _ _ hdefined =>
      have hnoting := h.defining id node demanded unbox
      have hdemanded : Since final active events (session.demanding id demanded unbox) :=
        hsince.later (.demanding h.formed id demanded unbox) (.inl rfl)
      have hnoted : Since final active events ((session.demanding id demanded unbox).noting
          (.defining node demanded unbox)) :=
        hdemanded.noting (h.demanding id demanded unbox).formed trivial
      have hevaluated := (evaluate_standing depth node demanded unbox hnoting).1
      have hproven := hdefiner node demanded unbox _ events hnoting hnoted
      rw [hdefined] at hevaluated hproven
      exact hproven.later (.proving hevaluated.formed id _) (.inl rfl)

theorem ensure_since (id : NameId) (demanded : Kinds) (unbox : Bool)
    (h : Standing layout active searching session) (hsince : Since final active events session) :
    Since final active events
      ((ensure (evaluate layout depth active searching) id demanded unbox).run session).2 := by
  have hasking : Standing layout active searching (session.noting (.asked id demanded unbox)) :=
    h.noting trivial
  have hasked : Since final active events (session.noting (.asked id demanded unbox)) :=
    hsince.noting h.formed trivial
  have hfollowed := follow_since hdefiner id demanded unbox hasking hasked
  have hevolves := follow_evolves (evaluate_sound layout depth active searching) id demanded unbox
    hasking.formed
  rw [run_ensure]
  exact hfollowed.noting hevolves.formed trivial

theorem since_sustained (events : List Event) :
    Sustains (evaluate layout depth active searching) fun session =>
      Standing layout active searching session ∧ Since final active events session where
  formed _ h := h.1.formed
  making _ _ h hmaking := ⟨h.1.making hmaking, h.2.making h.1.formed hmaking⟩
  ensure session id h _ := by
    obtain ⟨hstanding, hprecedes⟩ := ensure_standing depth id {.frame} false h.1
    have hensured := ensure_since hdefiner id {.frame} false h.1 h.2
    exact ⟨⟨hstanding, hensured⟩, hprecedes.evolves.grows.retains⟩

end Definers

theorem resolve_since {mark : Mark}
    (hduring : Completes layout final active (mark.id :: searching)
      (evaluate layout depth active (mark.id :: searching)))
    (scope : ScopeId) (path : List String) (h : Standing layout active searching session)
    (hsince : Since final active events session) :
    Since final active events ((resolve (evaluate layout depth active (mark.id :: searching))
      searching scope mark path).run session).2 := by
  rw [run_resolve]
  cases hresolved : session.defs.resolved.find? mark.id with
  | some name => exact hsince
  | none =>
      dsimp only
      split
      · exact hsince
      · next hid =>
        obtain ⟨hstanding, hfound⟩ := ((since_sustained hduring events).lookup scope path mark.span
          ⟨h.beginning hid hresolved, hsince.noting h.formed (by trivial)⟩).reached
        exact hfound.later (.resolving hstanding.formed
          (hstanding.nested.unresolved mark.id List.mem_cons_self) _)
          (.inr ⟨.resolved mark.id _, trivial, rfl⟩)

theorem rule_since {expr : Expr} (scope : ScopeId)
    (hagain : Completes layout final active searching (evaluate layout depth active searching))
    (hduring : Completes layout final active (expr.id :: searching)
      (evaluate layout depth active (expr.id :: searching)))
    (demanded : Kinds) (unbox : Bool) (h : Standing layout active searching session)
    (hsince : Since final active events session) :
    Since final active events ((rule (evaluate layout depth active searching)
      (evaluate layout depth active (expr.id :: searching)) searching scope demanded unbox
      expr).run session).2 := by
  have hnode : ∀ node demanded unbox session, Standing layout active searching session →
      Since final active events session →
        let after := ((evaluate layout depth active searching node demanded unbox).run session).2
        Standing layout active searching after ∧ Since final active events after :=
    fun node demanded unbox session h hsince => ⟨(evaluate_standing depth node demanded unbox h).1,
      hagain node demanded unbox session events h hsince⟩
  rw [run_rule]
  cases expr.way with
  | leaf natural => exact hsince.leaf h.formed ..
  | lookup path =>
      have hresolved := resolve_since hduring scope path h hsince
      obtain ⟨hstanding, -⟩ := resolve_standing depth scope expr.mark path h
      dsimp only
      cases ((resolve (evaluate layout depth active (expr.id :: searching)) searching scope
        expr.mark path).run session).1 with
      | some meant => exact ensure_since hagain meant demanded unbox hstanding hresolved
      | none => exact hresolved
  | coalesce primary fallback =>
      obtain ⟨hstanding, hfallback⟩ := hnode fallback demanded unbox session h hsince
      exact (hnode primary _ unbox _ hstanding hfallback).2
  | choose consequent alternative =>
      obtain ⟨hstanding, hconsequent⟩ := hnode consequent demanded unbox session h hsince
      exact (hnode alternative demanded unbox _ hstanding hconsequent).2
  | arithmetic left right =>
      obtain ⟨hstanding, hleft⟩ := hnode left .number true session h hsince
      obtain ⟨hstanding', hright⟩ := hnode right .number true _ hstanding hleft
      dsimp only
      generalize arithmeticKinds _ _ = natural
      have hweighed := ensureIntrinsic_evolves scope expr.id natural true expr.span
        hstanding'.formed
      exact (hright.ensureIntrinsic hstanding'.formed ..).ensureIntrinsic hweighed.formed ..
  | enforce value kinds =>
      obtain ⟨hstanding, hvalue⟩ := hnode value kinds true session h hsince
      exact hvalue.leaf hstanding.formed ..
  | body node => exact (hnode node demanded unbox session h hsince).2

end Demands

theorem evaluate_since {layout : Layout} {final : Session Progress} (hclear : Clear layout final)
    (depth : Nat) (active searching : List NodeId) :
    Completes layout final active searching (evaluate layout depth active searching) := by
  induction depth generalizing active searching with
  | zero => exact fun _ _ _ _ _ _ hsince => hsince
  | succ depth ih =>
      intro id demanded unbox session events h hsince
      have hfair := evaluate_fair hclear (depth + 1) active searching id demanded unbox session h
      have hprecedes := (evaluate_standing (depth + 1) id demanded unbox h).2
      rw [run_evaluate_succ] at hfair hprecedes ⊢
      cases hplacement : layout.nodes.find? id with
      | none => exact hsince
      | some placement =>
          obtain rfl := h.placed id placement hplacement
          rw [hplacement] at hfair hprecedes
          dsimp only at hfair hprecedes ⊢
          by_cases hactive : placement.expr.id ∈ active
          · rw [if_pos hactive]
            exact hsince.noting h.formed trivial
          · rw [if_neg hactive] at hfair hprecedes ⊢
            have hruled := rule_since placement.scope
              (ih (placement.expr.id :: active) searching)
              (ih (placement.expr.id :: active) (placement.expr.id :: searching)) demanded unbox
              (h.entering hactive demanded) (since_self final (placement.expr.id :: active)
                (session.noting (.entered placement.expr.id demanded)))
            exact hsince.evaluated hactive hprecedes hruled hfair

/-! ## Whole units -/

section Units

variable {layout : Layout} {final session : Session Progress} {events : List Event}

theorem classify_since (hclear : Clear layout final) (id : NodeId)
    (h : Standing layout [] [] session) (hsince : Since final [] events session) :
    Since final [] events ((classify layout id).run session).2 := by
  rw [run_classify]
  cases hplaced : layout.nodes.find? id with
  | none => exact hsince
  | some placement =>
      obtain rfl := h.placed id placement hplaced
      dsimp only
      split
      · next path _ =>
        exact resolve_since (evaluate_since hclear (depthOf layout) [] [placement.expr.mark.id])
          placement.scope path h hsince
      · exact hsince

theorem answer_since (hclear : Clear layout final) (ask : Ask) (h : Standing layout [] [] session)
    (hsince : Since final [] events session) :
    Since final [] events ((answer layout ask).run session).2 := by
  have hdefiner := evaluate_since hclear (depthOf layout) [] []
  cases ask with
  | node id kinds => exact hdefiner id kinds false session events h hsince
  | definition value =>
      unfold answer
      dsimp only
      split
      · next name _ => exact ensure_since hdefiner name .any false h hsince
      · exact hdefiner value .any false session events h hsince

/-- All requests that are made: no evaluation begins without coming to its end. -/
theorem answered_since {surveyed : Session Layout} (hclear : Clear surveyed.defs final)
    (hstart : Standing surveyed.defs [] [] (start surveyed)) :
    Standing surveyed.defs [] [] (answeredIn surveyed (requests surveyed)) ∧
      Since final [] (start surveyed).trace (answeredIn surveyed (requests surveyed)) :=
  answeredIn_preserves (fun session => Standing surveyed.defs [] [] session ∧
      Since final [] (start surveyed).trace session) (requests surveyed)
    (fun id _ h => ⟨(classify_standing id h.1).1, classify_since hclear id h.1 h.2⟩)
    (fun ask _ h => ⟨(answer_standing ask h.1).1, answer_since hclear ask h.1 h.2⟩)
    ⟨hstart, since_self final [] (start surveyed)⟩

theorem complete_finished {unit : Expr} (hdistinct : unit.Distinct) {file : String}
    {topLevel : Bool}
    (hclean : (finished (Survey.ofUnit unit file topLevel)).reporter.report.totalErrors = 0) :
    Complete (finished (Survey.ofUnit unit file topLevel)).trace := by
  have htrace : (start (Survey.ofUnit unit file topLevel)).trace = [] :=
    (Survey.kept_ofUnit unit file topLevel).untraced
  obtain ⟨hstanding, hsince⟩ :=
    answered_since (clear_finished hdistinct hclean) (start_standing unit file topLevel)
  have hplain := checkMasks_plain hstanding.formed
  obtain ⟨reporter, hfinished⟩ := checkMasks_reports
    (answeredIn (Survey.ofUnit unit file topLevel) (requests (Survey.ofUnit unit file topLevel)))
  rw [← finished_eq_checked] at hplain hfinished
  obtain ⟨stretch, hstretch, hcomplete, -⟩ :=
    hsince.holds (.of_eq hplain.evolves hplain.resolved)
  rw [htrace, List.append_nil] at hstretch
  rw [hfinished]
  dsimp only [Session.reporting]
  rwa [hstretch]

end Units

end Evaluation

namespace Analysis

/-- If nothing is wrong with a unit, every evaluation of a node comes to its end, and it answers a
demand for some kinds with some of these kinds, unless a node is met again in the meantime that is
being evaluated already. -/
theorem undisturbed_honours (unit : Expr) (hdistinct : unit.Distinct) (file : String)
    (options : Options) (hsuccess : (analyse unit file options).success = true)
    {newer earlier : List Event} {node : NodeId} {demanded : Kinds}
    (hentered : (analyse unit file options).trace = newer ++ .entered node demanded :: earlier) :
    ∃ later proven during, newer = later ++ .left node proven :: during ∧
      (∀ kinds, .left node kinds ∉ during) ∧
        (demanded ≠ ∅ → (∀ other, .reentered other ∉ during) →
          proven ≠ ∅ ∧ proven ⊆ demanded) := by
  rw [trace_analyse] at hentered
  obtain ⟨later, proven, during, hnewer, hleft, hhonoured⟩ :=
    Evaluation.complete_finished hdistinct (totalErrors_eq_zero hsuccess) newer node demanded
      earlier hentered
  refine ⟨later, proven, during, hnewer, hleft, fun hdemanded hundisturbed => ?_⟩
  obtain ⟨hnonempty, hwithin⟩ := hhonoured hdemanded hundisturbed
  exact ⟨hnonempty, hwithin⟩

/-- A number that stands in for null where a number is required. -/
def defaulted : Expr :=
  let mark (id : Nat) : Mark := ⟨⟨id⟩, .nowhere⟩
  .frame (mark 5) [
    .of "a" (.literal (mark 0) .null),
    .of "b" (.enforce (mark 4)
      (.coalesce (mark 3) (.lookup (mark 1) ["a"]) (.literal (mark 2) (.int 1))) {.int})]

/-- The name that is looked up can only be null, and the expression is a number nevertheless. -/
theorem undisturbed_honours_defaulted :
    defaulted.Distinct ∧ (analyse defaulted "unit" default).success = true ∧
      ∃ later proven during earlier, (analyse defaulted "unit" default).trace =
        (later ++ .left ⟨3⟩ proven :: during) ++ .entered ⟨3⟩ {.int} :: earlier ∧
          proven ≠ ∅ ∧ proven ⊆ {.int} := by
  have hdistinct : defaulted.Distinct := by decide
  have hsuccess : (analyse defaulted "unit" default).success = true := by decide +kernel
  have hmem : .entered ⟨3⟩ {.int} ∈ (analyse defaulted "unit" default).trace := by decide +kernel
  have hunmet : (analyse defaulted "unit" default).trace.all
      (fun | .reentered _ => false | _ => true) = true := by decide +kernel
  obtain ⟨newer, earlier, htrace⟩ := List.append_of_mem hmem
  obtain ⟨later, proven, during, rfl, -, hhonoured⟩ :=
    undisturbed_honours defaulted hdistinct "unit" default hsuccess htrace
  refine ⟨hdistinct, hsuccess, later, proven, during, earlier, htrace,
    hhonoured (by decide) fun other hother => ?_⟩
  cases List.all_eq_true.mp hunmet (.reentered other) (by rw [htrace]; simp [hother])

end Analysis

end FrameLang
