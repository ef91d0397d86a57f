import FrameLang.Proofs.Analysis.Meanings
import FrameLang.Proofs.Analysis.Narrowing

/-!
# Demands that conflict

A demand that has nothing in common with what is known is a conflict.  A name that is not
bound to a definition refuses such a demand, and then nothing is known that was not known
before.  A name that is bound to a definition is different.  It takes part of the demand
before its definition is asked, and it takes part of the answer afterwards, whether the
definition finds a conflict or not, and nothing is taken back.

So what is known of a name after a call is what was known before, narrowed by everything
that has been demanded of it in the meantime and by every answer to these demands, in the
order in which all this happened (`Evaluation.Logs`).  The trace of the session tells what
this was (`ScopeTree.evidence`).

## Strategy

Between the demand and its first effect, and between the last effect of an answer and the
answer itself, the trace and the record are out of step.  `Traced` compares the trace with
any set of kinds in place of what the record says, so that the recursion of `follow` can
be gone through with the demand still owed to the record before and the answer owed to
the trace after.
-/

namespace FrameLang

/-! ## Evidence -/

namespace Kinds

variable {known : Kinds} {evidence : List Kinds}

/-- What is known after some evidence, the newest of which comes first. -/
def narrowAll (known : Kinds) (evidence : List Kinds) : Kinds :=
  evidence.foldr (fun kinds known => known.narrow kinds) known

theorem narrowAll_cons (known kinds : Kinds) (evidence : List Kinds) :
    known.narrowAll (kinds :: evidence) = (known.narrowAll evidence).narrow kinds := rfl

theorem narrowAll_subset (known : Kinds) (evidence : List Kinds) :
    known.narrowAll evidence ⊆ known := by
  induction evidence with
  | nil => exact subset_refl known
  | cons kinds evidence ih => exact subset_trans (narrows_narrow _ kinds).subset ih

theorem narrow_eq_self_iff {kinds : Kinds} :
    known.narrow kinds = known ↔ known ⊆ kinds ∨ known.meets kinds = false := by
  refine ⟨fun h => ?_, narrow_eq_self⟩
  have hor := known.narrow_subset_or kinds
  rwa [h] at hor

/-- Evidence is no news as a whole only if no piece of it is news. -/
theorem narrowAll_eq_self_iff :
    known.narrowAll evidence = known ↔
      ∀ kinds ∈ evidence, known ⊆ kinds ∨ known.meets kinds = false := by
  induction evidence with
  | nil => simp [narrowAll]
  | cons kinds evidence ih =>
      rw [narrowAll_cons, List.forall_mem_cons, ← ih]
      constructor
      · intro h
        have hsubset := (narrows_narrow (known.narrowAll evidence) kinds).subset
        rw [h] at hsubset
        have hrest := subset_antisymm (narrowAll_subset known evidence) hsubset
        rw [hrest] at h
        exact ⟨narrow_eq_self_iff.mp h, hrest⟩
      · rintro ⟨hkinds, hrest⟩
        rw [hrest]
        exact narrow_eq_self hkinds

/-- What is left of known kinds agrees with itself. -/
theorem narrow_of_eq_inter {demanded : Kinds} (h : known.meets demanded = true) :
    (known.narrow demanded).narrow (known ∩ demanded) = known.narrow demanded := by
  refine narrow_eq_self (.inl ?_)
  rw [narrow, if_pos h]
  exact subset_refl _

end Kinds

/-- What an event tells about a name: a demand on it, or the answer to one. -/
def Event.evidence? : Event → Option (NameId × Kinds)
  | asked name demanded _ => some (name, demanded)
  | answered name proven => some (name, proven)
  | _ => none

/-- A finding about kinds. -/
def Finding.Typed (finding : Finding) : Prop :=
  finding.code = .conflictingName ∨ finding.code = .conflictingExpression

instance (finding : Finding) : Decidable finding.Typed :=
  inferInstanceAs (Decidable (_ ∨ _))

namespace ScopeTree

/-- What events tell about the name at which demands end. -/
def evidence (tree : ScopeTree) (bearer : NameId) (events : List Event) : List Kinds :=
  events.filterMap fun event =>
    event.evidence?.bind fun item => if tree.bearer item.1 = bearer then some item.2 else none

theorem evidence_cons_of_none {event : Event} (h : event.evidence? = none) (tree : ScopeTree)
    (bearer : NameId) (events : List Event) :
    tree.evidence bearer (event :: events) = tree.evidence bearer events :=
  List.filterMap_cons_none (by rw [h]; rfl)

theorem evidence_cons {event : Event} {name : NameId} {kinds : Kinds}
    (h : event.evidence? = some (name, kinds)) (tree : ScopeTree) (bearer : NameId)
    (events : List Event) :
    tree.evidence bearer (event :: events) =
      if tree.bearer name = bearer then kinds :: tree.evidence bearer events
      else tree.evidence bearer events := by
  unfold evidence
  split
  · next heq => exact List.filterMap_cons_some (by rw [h, Option.bind_some, if_pos heq])
  · next hne => exact List.filterMap_cons_none (by rw [h, Option.bind_some, if_neg hne])

end ScopeTree

/-- Demands end at a name, and what is known of it is what they have left. -/
structure ScopeTree.Bears (tree : ScopeTree) (id : NameId) : Prop where
  live : (tree.name id).origin ≠ .junk
  own : ∀ source, (tree.name id).origin ≠ .delegated source

theorem ScopeTree.Bears.lt_size {tree : ScopeTree} {id : NameId} (h : tree.Bears id) :
    id.index < tree.names.size :=
  lt_size_of_not_junk (NameRecord.isJunk_eq_false.mpr h.live)

theorem ScopeTree.Bears.evolves {before after : Session Progress} {id : NameId}
    (h : before.tree.Bears id) (hevolves : before.Evolves after) : after.tree.Bears id := by
  have hnarrows := (hevolves.grows.name id h.lt_size).origin
  exact ⟨fun heq => h.live (hnarrows.junk_iff.mp heq),
    fun source heq => h.own source (hnarrows.delegated_iff.mp heq)⟩

namespace ScopeTree

variable {before after : ScopeTree}

/-- A demand has nothing in common with what is known of a name where the demands on it end. -/
def Refuses (tree : ScopeTree) (id : NameId) (demanded : Kinds) : Prop :=
  tree.isJunk id = false ∧ (tree.held id).meets demanded = false

theorem refuses_congr (h : ∀ id, (after.name id).origin = (before.name id).origin) {id : NameId}
    {demanded : Kinds} : after.Refuses id demanded ↔ before.Refuses id demanded := by
  unfold Refuses isJunk NameRecord.isJunk held
  rw [bearer_congr h, h, h]

end ScopeTree

namespace Evaluation

open ScopeM

/-! ## Records and traces -/

/-- Some kinds are what a trace makes of what was known of a name in an earlier session. -/
structure Traced (base : Session Progress) (bearer : NameId) (session : Session Progress)
    (known : Kinds) : Prop where
  evolves : base.Evolves session
  events : ∃ events, session.trace = events ++ base.trace ∧
    (∀ event ∈ events, ∀ name kinds, event.evidence? = some (name, kinds) →
      name.index < session.tree.names.size) ∧
    known = (base.tree.name bearer).origin.known.narrowAll (session.tree.evidence bearer events)

/-- What is known of a name is what the trace makes of what was known in an earlier session. -/
structure Logs (base : Session Progress) (bearer : NameId) (session : Session Progress) : Prop
    extends Grounded session where
  traced : Traced base bearer session (session.tree.name bearer).origin.known

section Logging

variable {base session after : Session Progress} {bearer : NameId} {known : Kinds}

theorem Logs.refl (h : Grounded base) (bearer : NameId) : Logs base bearer base :=
  ⟨h, .refl h.formed, [], rfl, fun _ hmem => (by cases hmem), rfl⟩

/-- Only the trace matters, and where demands end stays where it is. -/
theorem Traced.later (h : Traced base bearer session known) (hevolves : session.Evolves after)
    (htrace : after.trace = session.trace) : Traced base bearer after known := by
  obtain ⟨events, hevents, hnamed, hknown⟩ := h.events
  refine ⟨h.evolves.trans hevolves, events, htrace.trans hevents,
    fun event hevent name kinds hevidence => Nat.lt_of_lt_of_le
      (hnamed event hevent name kinds hevidence) hevolves.grows.size_names, hknown.trans ?_⟩
  refine congrArg _ (List.filterMap_congr fun event hevent => ?_)
  cases hevidence : event.evidence? with
  | none => rfl
  | some item =>
      rw [Option.bind_some, Option.bind_some, hevolves.grows.bearer h.evolves.formed hevolves.formed
        (hnamed event hevent item.1 item.2 hevidence)]

theorem Traced.noting (h : Traced base bearer session known) {event : Event}
    (hevent : event.evidence? = none) : Traced base bearer (session.noting event) known := by
  obtain ⟨events, hevents, hnamed, hknown⟩ := h.events
  refine ⟨h.evolves.trans (.noting h.evolves.formed event), event :: events,
    congrArg (List.cons event) hevents, List.forall_mem_cons.mpr ⟨fun name kinds heq => ?_, hnamed⟩,
    hknown.trans (congrArg _ (ScopeTree.evidence_cons_of_none hevent ..).symm)⟩
  cases hevent.symm.trans heq

/-- A demand or an answer is noted, and it tells about the name if demands end there. -/
theorem Traced.telling (h : Traced base bearer session known) {event : Event} {name : NameId}
    {kinds : Kinds} (hevent : event.evidence? = some (name, kinds))
    (hname : name.index < session.tree.names.size) :
    Traced base bearer (session.noting event)
      (if session.tree.bearer name = bearer then known.narrow kinds else known) := by
  obtain ⟨events, hevents, hnamed, hknown⟩ := h.events
  refine ⟨h.evolves.trans (.noting h.evolves.formed event), event :: events,
    congrArg (List.cons event) hevents,
    List.forall_mem_cons.mpr ⟨fun other others heq => ?_, hnamed⟩, ?_⟩
  · obtain ⟨rfl, rfl⟩ := Prod.mk.inj (Option.some.inj (hevent.symm.trans heq))
    exact hname
  · change _ = Kinds.narrowAll _ (session.tree.evidence bearer (event :: events))
    rw [ScopeTree.evidence_cons hevent]
    split
    · rw [Kinds.narrowAll_cons, hknown]
    · exact hknown

/-- Steps that do not touch the record of the name. -/
theorem Logs.later (h : Logs base bearer session) (hevolves : session.Evolves after)
    (htrace : after.trace = session.trace) (hdefs : after.defs.resolved = session.defs.resolved)
    (hknown : (after.tree.name bearer).origin.known = (session.tree.name bearer).origin.known) :
    Logs base bearer after := by
  refine ⟨h.toGrounded.evolves hevolves hdefs, ?_⟩
  rw [hknown]
  exact h.traced.later hevolves htrace

theorem Logs.noting (h : Logs base bearer session) {event : Event}
    (hevent : event.evidence? = none) : Logs base bearer (session.noting event) :=
  ⟨h.toGrounded.evolves (.noting h.formed event) rfl, h.traced.noting hevent⟩

theorem Logs.making (h : Logs base bearer session) (hbase : base.tree.Bears bearer)
    (hmaking : session.Making after) : Logs base bearer after := by
  have hsize := (hbase.evolves h.traced.evolves).lt_size
  exact h.later (hmaking.evolves h.formed) hmaking.trace (by rw [hmaking.defs])
    (congrArg Origin.known (hmaking.origin hsize))

end Logging

/-! ## Demands -/

section Demands

variable {base session : Session Progress} {bearer : NameId}

/-- What the record of a name says once a demand has been made on it. -/
theorem known_demanding (hbears : session.tree.Bears bearer) (id : NameId) (demanded : Kinds)
    (unbox : Bool) :
    ((session.demanding id demanded unbox).tree.name bearer).origin.known =
      if id = bearer then (session.tree.name bearer).origin.known.narrow demanded
      else (session.tree.name bearer).origin.known := by
  rw [session.origin_demanding]
  split
  · exact Origin.known_narrow hbears.live hbears.own demanded
  · rfl

/-- A definer that keeps the record of a name in step with the trace. -/
structure Logger (base : Session Progress) (bearer : NameId) (definer : Definer Progress) : Prop where
  sound : definer.Sound
  grounded : definer.Maintains Grounded
  logs : definer.Maintains (Logs base bearer)

variable {definer : Definer Progress} (hdefiner : Logger base bearer definer)
include hdefiner

/-- The record of a name owes a demand to the trace, which owes the answer to the record
afterwards. -/
theorem follow_traced (hbase : base.tree.Bears bearer) (id : NameId) (demanded : Kinds)
    (unbox : Bool) (h : Grounded session)
    (htraced : Traced base bearer session
      (if session.tree.bearer id = bearer then
        (session.tree.name bearer).origin.known.narrow demanded
      else (session.tree.name bearer).origin.known)) (hid : id.index < session.tree.names.size) :
    let followed := (follow definer id demanded unbox).run session
    ∃ known, Traced base bearer followed.2 known ∧
      (followed.2.tree.name bearer).origin.known =
        if session.tree.bearer id = bearer then known.narrow followed.1 else known := by
  intro followed
  have hfollows : Follows definer demanded unbox id session followed :=
    follows_follow definer id demanded unbox h.formed
  clear_value followed
  -- a name that does not delegate bears its own demands, and its record owes the answer
  have hends : ∀ {id : NameId} {session : Session Progress},
      (∀ source, (session.tree.name id).origin ≠ .delegated source) →
      Traced base bearer session (if session.tree.bearer id = bearer then
        (session.tree.name bearer).origin.known.narrow demanded
      else (session.tree.name bearer).origin.known) → session.tree.Formed →
        session.tree.bearer id = id ∧ Traced base bearer (session.demanding id demanded unbox)
          ((session.demanding id demanded unbox).tree.name bearer).origin.known := by
    intro id session hnot htraced hformed
    have hown := ScopeTree.bearer_of_not_delegated hnot
    have hknown := known_demanding (hbase.evolves htraced.evolves) id demanded unbox
    rw [hown, ← hknown] at htraced
    exact ⟨hown, htraced.later (.demanding hformed id demanded unbox) rfl⟩
  induction hfollows with
  | @settled id session proven hanswer =>
      have hbears := hbase.evolves htraced.evolves
      obtain ⟨hown, hlater⟩ := hends
        (Origin.ne_delegated_of_answer fun source heq => by cases hanswer.symm.trans heq)
        htraced h.formed
      refine ⟨_, hlater, ?_⟩
      rw [hown]
      split
      · next heq =>
        subst heq
        obtain ⟨hmeets, rfl⟩ := Origin.of_settled hbears.live hanswer
        rw [known_demanding hbears, if_pos rfl]
        exact (Kinds.narrow_of_eq_inter hmeets).symm
      · rfl
  | @refused id session known hanswer =>
      have hbears := hbase.evolves htraced.evolves
      obtain ⟨hown, hlater⟩ := hends
        (Origin.ne_delegated_of_answer fun source heq => by cases hanswer.symm.trans heq)
        htraced h.formed
      refine ⟨_, hlater.later (.reporting (h.demanding id demanded unbox).formed
        (Reporter.grows_push ..)) rfl, ?_⟩
      rw [hown]
      split
      · next heq =>
        subst heq
        obtain ⟨hnot, rfl⟩ := Origin.of_refused hanswer
        change ((session.demanding id demanded unbox).tree.name id).origin.known = _
        rw [known_demanding hbears, if_pos rfl, Kinds.narrow_eq_self (.inr hnot)]
        exact (Kinds.narrow_eq_self (.inl (Kinds.subset_refl _))).symm
      · rfl
  | @delegated id source session _ horigin _ ih =>
      have hbears := hbase.evolves htraced.evolves
      have hevolves := Session.Evolves.demanding h.formed id demanded unbox
      have hlt := (h.formed.source id source (by rw [horigin]; rfl)).1
      have hsource := Nat.lt_trans hlt hid
      have hne : id ≠ bearer := fun heq => hbears.own source (heq ▸ horigin)
      have hbearer : (session.demanding id demanded unbox).tree.bearer source =
          session.tree.bearer id := by
        rw [hevolves.grows.bearer h.formed hevolves.formed hsource,
          ScopeTree.bearer_of_delegated h.formed horigin]
      have hknown := known_demanding hbears id demanded unbox
      rw [if_neg hne] at hknown
      have hlater := htraced.later hevolves rfl
      rw [← hbearer, ← hknown] at hlater
      rw [← hbearer]
      exact ih (h.demanding id demanded unbox) hlater
        (Nat.lt_of_lt_of_le hsource hevolves.grows.size_names)
  | @bound id node session _ defined horigin hdefined =>
      obtain ⟨hown, hlater⟩ := hends (by simp [horigin]) htraced h.formed
      have hnoted : Logs base bearer ((session.demanding id demanded unbox).noting
          (.defining node demanded unbox)) :=
        Logs.noting ⟨h.demanding id demanded unbox, hlater⟩ rfl
      have hlogs := hdefiner.logs node demanded unbox _ hnoted
      rw [hdefined] at hlogs
      have hproving := Session.Evolves.proving hlogs.formed id defined.1
      refine ⟨_, hlogs.traced.later hproving rfl, ?_⟩
      rw [defined.2.origin_proving, hown]
      split
      · next heq =>
        subst heq
        have hnode : (defined.2.tree.name id).origin.definition? = some node := by
          rw [(hlogs.traced.evolves.grows.name id hbase.lt_size).origin.definition?,
            ← (htraced.evolves.grows.name id hbase.lt_size).origin.definition?, horigin]
          rfl
        obtain ⟨others, heq⟩ := Origin.definition?_eq_some_iff.mp hnode
        rw [heq]
        rfl
      · rfl

/-- A demand keeps the record of a name in step with the trace. -/
theorem ensure_logs (hbase : base.tree.Bears bearer) (id : NameId) (demanded : Kinds) (unbox : Bool)
    (h : Logs base bearer session) (hid : id.index < session.tree.names.size) :
    Logs base bearer ((ensure definer id demanded unbox).run session).2 := by
  have hground := ensure_grounded hdefiner.grounded id demanded unbox h.toGrounded
  have hasked := h.toGrounded.evolves (.noting h.formed (.asked id demanded unbox)) rfl
  have howed : Traced base bearer (session.noting (.asked id demanded unbox)) _ :=
    h.traced.telling rfl hid
  obtain ⟨known, htraced, hknown⟩ := follow_traced hdefiner hbase id demanded unbox hasked howed hid
  have hfollowed := follow_evolves hdefiner.sound id demanded unbox hasked.formed
  rw [run_ensure] at hground ⊢
  dsimp only at hground ⊢
  generalize (follow definer id demanded unbox).run
    (session.noting (.asked id demanded unbox)) = followed at *
  have hbearer : followed.2.tree.bearer id = session.tree.bearer id :=
    hfollowed.grows.bearer h.formed hfollowed.formed hid
  have hanswered : Traced base bearer (followed.2.noting (.answered id followed.1)) _ :=
    htraced.telling rfl (Nat.lt_of_lt_of_le hid hfollowed.grows.size_names)
  refine ⟨hground, ?_⟩
  change Traced base bearer _ (followed.2.tree.name bearer).origin.known
  rw [hknown]
  rwa [hbearer] at hanswered

end Demands

/-! ## Evaluation -/

section Evaluations

variable {base session : Session Progress} {bearer : NameId} (hbase : base.tree.Bears bearer)
include hbase

theorem resolve_logs {during : Definer Progress} (hduring : Logger base bearer during)
    (searching : List NodeId) (scope : ScopeId) (mark : Mark) (path : List String)
    (h : Logs base bearer session) :
    Logs base bearer ((resolve during searching scope mark path).run session).2 := by
  have hsustains : Sustains during (Logs base bearer) :=
    { formed := fun _ h => h.formed
      making := fun _ _ h hmaking => h.making hbase hmaking
      ensure := fun session id h hid => by
        have hevolves := ensure_evolves hduring.sound id {.frame} false h.formed
        have hensured := ensure_logs hduring hbase id {.frame} false h hid
        exact ⟨hensured, hevolves.grows.retains⟩ }
  have hground := resolve_grounded hduring.grounded hduring.sound searching scope mark path h.toGrounded
  rw [run_resolve] at hground ⊢
  cases hresolved : session.defs.resolved.find? mark.id with
  | some name => exact h
  | none =>
      rw [hresolved] at hground
      dsimp only at hground ⊢
      split at hground
      · next hmem => rwa [if_pos hmem]
      · next hmem =>
        have hnoted : Logs base bearer (session.noting (.searching mark.id)) := h.noting rfl
        have hfound := (hsustains.lookup scope path mark.span hnoted).reached
        rw [if_neg hmem]
        exact ⟨hground, (hfound.traced.later (.defs hfound.formed
          (Progress.le_resolve _ mark.id _)) rfl).noting rfl⟩

theorem rule_logs {again during : Definer Progress} (hagain : Logger base bearer again)
    (hduring : Logger base bearer during) (searching : List NodeId) (scope : ScopeId)
    (demanded : Kinds) (unbox : Bool) (expr : Expr) (h : Logs base bearer session) :
    Logs base bearer ((rule again during searching scope demanded unbox expr).run session).2 := by
  refine rule_preserves (fun session error h => ?_) (fun session demanded unbox h => ?_)
    hagain.logs (fun path session h => ?_) demanded unbox h
  · exact h.later (.reporting h.formed (Reporter.grows_push ..)) rfl rfl rfl
  · have hnames := names_ensureIntrinsic scope expr.id demanded unbox expr.span session
    refine h.later (ensureIntrinsic_evolves scope expr.id demanded unbox expr.span h.formed)
      (trace_ensureIntrinsic ..) (by rw [defs_ensureIntrinsic]) ?_
    rw [ScopeTree.name, ScopeTree.name, hnames]
  · have hfound := resolve_logs hbase hduring searching scope expr.mark path h
    have hmeaning := (resolve_meaning during searching scope expr.mark path session).1
    exact ⟨hfound, fun name hname demanded unbox => ensure_logs hagain hbase name demanded
      unbox hfound (hfound.known _ name (hmeaning name hname))⟩

/-- Whatever is evaluated, the record of a name keeps in step with the trace. -/
theorem evaluate_logs (layout : Layout) (depth : Nat) (active searching : List NodeId) :
    Logger base bearer (evaluate layout depth active searching) := by
  refine ⟨evaluate_sound layout depth active searching,
    evaluate_grounded layout depth active searching, ?_⟩
  induction depth generalizing active searching with
  | zero => exact fun _ _ _ _ h => h
  | succ depth ih =>
      intro id demanded unbox session h
      have hlogger := fun active searching => Logger.mk (evaluate_sound layout depth active searching)
        (evaluate_grounded layout depth active searching) (ih active searching)
      rw [run_evaluate_succ]
      cases layout.nodes.find? id with
      | none => exact h
      | some placement =>
          dsimp only
          split
          · exact h.noting rfl
          · have hentered : Logs base bearer (session.noting (.entered id demanded)) := h.noting rfl
            have hproven := rule_logs hbase (hlogger (id :: active) searching)
              (hlogger (id :: active) (id :: searching)) searching placement.scope demanded unbox
              placement.expr hentered
            exact (hproven.later (.defs hproven.formed (Progress.le_prove _ id _)) rfl rfl
              rfl).noting rfl

end Evaluations

/-! ## Refusals -/

section Refusals

/-- A name that is not bound to a definition refuses the demands that have nothing in common with
what is known of it, and a refusal leaves every name as it is. -/
theorem follow_unbound (definer : Definer Progress) {session : Session Progress} {id : NameId}
    (h : session.tree.Formed)
    (hnone : session.tree.definition? id = none) (demanded : Kinds) (unbox : Bool) :
    let followed := (follow definer id demanded unbox).run session
    (session.tree.Refuses id demanded →
      (∃ error, error.code = .conflictingName ∧
        followed.2.reporter = session.reporter.push error) ∧
      ∀ other, (followed.2.tree.name other).origin = (session.tree.name other).origin) ∧
    (¬ session.tree.Refuses id demanded → followed.2.reporter = session.reporter) := by
  intro followed
  have hfollows : Follows definer demanded unbox id session followed :=
    follows_follow definer id demanded unbox h
  clear_value followed
  induction hfollows with
  | @settled id session proven hanswer =>
      have hown := ScopeTree.bearer_of_not_delegated
        (Origin.ne_delegated_of_answer fun source heq => by cases hanswer.symm.trans heq)
      refine ⟨fun hrefused => ?_, fun _ => rfl⟩
      have hmeets := (Origin.of_settled (NameRecord.isJunk_eq_false.mp hrefused.1) hanswer).1
      have hheld := hrefused.2
      rw [ScopeTree.held, hown, hmeets] at hheld
      cases hheld
  | @refused id session known hanswer =>
      have hown := ScopeTree.bearer_of_not_delegated
        (Origin.ne_delegated_of_answer fun source heq => by cases hanswer.symm.trans heq)
      obtain ⟨hnot, rfl⟩ := Origin.of_refused hanswer
      have hlive : session.tree.isJunk id = false := by
        rw [ScopeTree.isJunk, NameRecord.isJunk_eq_false]
        intro heq
        rw [heq] at hanswer
        cases hanswer
      refine ⟨fun _ => ⟨⟨_, rfl, rfl⟩, fun other => ?_⟩, fun hagrees => ?_⟩
      · refine (session.origin_demanding id other demanded unbox).trans ?_
        split
        · next heq => exact heq ▸ Origin.narrow_of_refused hanswer
        · rfl
      · refine absurd ⟨hlive, ?_⟩ hagrees
        rw [ScopeTree.held, hown, hnot]
  | @delegated id source session _ horigin _ ih =>
      have hevolves := Session.Evolves.demanding h id demanded unbox
      obtain ⟨hlt, hjunk, -⟩ := h.source id source (by rw [horigin]; rfl)
      have hsame : ∀ other, ((session.demanding id demanded unbox).tree.name other).origin =
          (session.tree.name other).origin := by
        intro other
        rw [session.origin_demanding]
        split
        · next heq => rw [← heq, horigin]; rfl
        · rfl
      have hlive : session.tree.isJunk id = false := by
        rw [ScopeTree.isJunk, NameRecord.isJunk_eq_false, horigin]
        simp
      have hrefuses : (session.demanding id demanded unbox).tree.Refuses source demanded ↔
          session.tree.Refuses id demanded := by
        rw [ScopeTree.refuses_congr hsame, ScopeTree.Refuses, ScopeTree.Refuses, hjunk, hlive,
          ScopeTree.held, ScopeTree.held, ScopeTree.bearer_of_delegated h horigin]
      have hnone' : (session.demanding id demanded unbox).tree.definition? source = none := by
        have hsize := Nat.lt_trans hlt (ScopeTree.lt_size_of_not_junk hlive)
        rw [hevolves.grows.definition? h hsize, ← ScopeTree.definition?_of_delegated h horigin,
          hnone]
      have hrest := ih hevolves.formed hnone'
      rw [hrefuses] at hrest
      refine ⟨fun hrefused => ?_, hrest.2⟩
      obtain ⟨herror, horigins⟩ := hrest.1 hrefused
      exact ⟨herror, fun other => (horigins other).trans (hsame other)⟩
  | bound id node horigin _ => cases (ScopeTree.definition?_of_bound horigin).symm.trans hnone

end Refusals

/-! ## Whole calls -/

/-- A demand on a name finds a conflict: in the course of it something is found to be wrong with
kinds, whether that has been reported before or not. -/
def FindsConflict (definer : Definer Progress) (id : NameId) (demanded : Kinds) (unbox : Bool)
    (session : Session Progress) : Prop :=
  ∃ finding ∈ ((ensure definer id demanded unbox).run
    (session.reporting (.new session.reporter.file))).2.reporter.seen, finding.Typed

instance (definer : Definer Progress) (id : NameId) (demanded : Kinds) (unbox : Bool)
    (session : Session Progress) : Decidable (FindsConflict definer id demanded unbox session) :=
  inferInstanceAs (Decidable (∃ finding ∈ _, Finding.Typed finding))

/-- A session that an analysis may come to after the walk: there are steps that lead to it, and
what lookups mean are names that there are. -/
structure Reaches (surveyed : Session Layout) (session : Session Progress) : Prop where
  runs : (start surveyed).Runs Progress.Learns session
  known : ∀ node name, session.defs.resolved.find? node = some name →
    name.index < session.tree.names.size

section Calls

variable {surveyed : Session Layout} {session : Session Progress}

theorem Reaches.grounded (h : Reaches surveyed session) (hformed : surveyed.tree.Formed) :
    Grounded session :=
  ⟨h.runs.formed hformed, h.known⟩

/-- Demands lead from one session that an analysis may come to to another one. -/
theorem Reaches.ensure (h : Reaches surveyed session) (hformed : surveyed.tree.Formed)
    (layout : Layout) (depth : Nat) (active searching : List NodeId) (id : NameId)
    (demanded : Kinds) (unbox : Bool) :
    Reaches surveyed
      ((ensure (evaluate layout depth active searching) id demanded unbox).run session).2 := by
  have hground := h.grounded hformed
  have hoperated := ensure_operated (evaluate_operated layout depth active searching) id demanded
    unbox session
  have hensured := ensure_grounded (evaluate_grounded layout depth active searching) id demanded
    unbox hground
  exact ⟨h.runs.trans (hoperated.runs hground.formed), hensured.known⟩

theorem classified_reaches (unit : Expr) (file : String) (topLevel : Bool) :
    Reaches (Survey.ofUnit unit file topLevel) (classified (Survey.ofUnit unit file topLevel)) := by
  have hformed : (start (Survey.ofUnit unit file topLevel)).tree.Formed :=
    (Survey.kept_ofUnit unit file topLevel).formed
  have hoperated : (start (Survey.ofUnit unit file topLevel)).Operated Progress.Learns
      (classified (Survey.ofUnit unit file topLevel)) :=
    forM_operated _ (classify_operated (Survey.ofUnit unit file topLevel).defs) _
  exact ⟨hoperated.runs hformed, (classified_explored unit file topLevel).1.known⟩

/-- A name that is not bound to a definition finds a conflict just if it refuses the demand. -/
theorem findsConflict_iff_refuses {definer : Definer Progress} {id : NameId}
    (h : session.tree.Formed) (hnone : session.tree.definition? id = none) (demanded : Kinds)
    (unbox : Bool) :
    FindsConflict definer id demanded unbox session ↔ session.tree.Refuses id demanded := by
  -- what has been reported before does not matter, so the report starts anew
  have hformed : ((session.reporting (.new session.reporter.file)).noting
      (.asked id demanded unbox)).tree.Formed := h
  have hfollowed := follow_unbound definer hformed hnone demanded unbox
  unfold FindsConflict
  rw [run_ensure]
  constructor
  · rintro ⟨finding, hmem, -⟩
    by_contra hnot
    have hreporter := hfollowed.2 hnot
    change finding ∈ ((follow definer id demanded unbox).run _).2.reporter.seen at hmem
    rw [hreporter] at hmem
    cases hmem
  · intro hrefuses
    obtain ⟨⟨error, hcode, hreporter⟩, -⟩ := hfollowed.1 hrefuses
    refine ⟨error.finding, ?_, .inl hcode⟩
    change error.finding ∈ ((follow definer id demanded unbox).run _).2.reporter.seen
    rw [hreporter, Reporter.mem_seen_push]
    exact .inl rfl

/-- A refusal leaves everything that is possible as it is. -/
theorem possible_of_refuses {definer : Definer Progress} {id : NameId}
    (h : session.tree.Formed) (hnone : session.tree.definition? id = none) {demanded : Kinds}
    (hrefuses : session.tree.Refuses id demanded) (unbox : Bool) (other : NameId) :
    ((ScopeM.ensure definer id demanded unbox).run session).2.tree.possible other =
      session.tree.possible other := by
  have hformed : (session.noting (.asked id demanded unbox)).tree.Formed := h
  have hfollowed := follow_unbound definer hformed hnone demanded unbox
  exact ScopeTree.possible_congr (hfollowed.1 hrefuses).2 other

/-- What is possible for a name that is bound to a definition, after a demand on it: what was
possible before, narrowed by everything that the trace tells of the name. -/
theorem possible_ensure (h : Grounded session) (layout : Layout) (depth : Nat)
    (active searching : List NodeId) {id : NameId} {node : NodeId}
    (hnode : session.tree.definition? id = some node) (demanded : Kinds) (unbox : Bool) :
    let call := (ScopeM.ensure (evaluate layout depth active searching) id demanded unbox).run session
    ∃ events, call.2.trace =
        .answered id call.1 :: (events ++ .asked id demanded unbox :: session.trace) ∧
      call.2.tree.possible id =
        (session.tree.possible id).narrowAll (call.2.tree.evidence (call.2.tree.bearer id)
          (.answered id call.1 :: (events ++ [.asked id demanded unbox]))) := by
  intro call
  have hsound := evaluate_sound layout depth active searching
  have hlive : session.tree.isJunk id = false := by
    by_contra hjunk
    rw [ScopeTree.definition?_of_isJunk (by simpa using hjunk)] at hnode
    cases hnode
  have hid := ScopeTree.lt_size_of_not_junk hlive
  obtain ⟨kinds, horigin⟩ := Origin.definition?_eq_some_iff.mp
    ((ScopeTree.definition?_bearer h.formed id).symm.trans hnode)
  have hbase : session.tree.Bears (session.tree.bearer id) :=
    ⟨by rw [horigin]; simp, by rw [horigin]; simp⟩
  have hlog : Logs session (session.tree.bearer id) call.2 :=
    ensure_logs (evaluate_logs hbase layout depth active searching) hbase id demanded unbox
      (.refl h _) hid
  have hevolves : session.Evolves call.2 := ensure_evolves hsound id demanded unbox h.formed
  have hbearer : call.2.tree.bearer id = session.tree.bearer id :=
    hevolves.grows.bearer h.formed hlog.formed hid
  -- what is possible for a name that is bound is what is known of it
  have hpossible : ∀ tree : ScopeTree, tree.Formed → tree.bearer id = session.tree.bearer id →
      (tree.name (session.tree.bearer id)).origin.source? = none →
        tree.possible id = (tree.name (session.tree.bearer id)).origin.known := by
    intro tree hformed heq hsource
    rw [← ScopeTree.possible_bearer hformed, heq]
    exact ScopeTree.possible_eq_known hsource
  have hafter : (call.2.tree.name (session.tree.bearer id)).origin.definition? = some node := by
    rw [(hevolves.grows.name _ hbase.lt_size).origin.definition?,
      ← ScopeTree.definition?_bearer h.formed, hnode]
  obtain ⟨kinds', horigin'⟩ := Origin.definition?_eq_some_iff.mp hafter
  have hasked : (Event.asked id demanded unbox :: session.trace) <:+
      ((follow (evaluate layout depth active searching) id demanded unbox).run
        (session.noting (.asked id demanded unbox))).2.trace :=
    (follow_evolves hsound id demanded unbox
      (Session.Evolves.noting h.formed (.asked id demanded unbox)).formed).trace
  obtain ⟨events, hevents⟩ := hasked
  have htrace : call.2.trace =
      .answered id call.1 :: (events ++ .asked id demanded unbox :: session.trace) :=
    congrArg (List.cons _) hevents.symm
  obtain ⟨others, hothers, -, hknown⟩ := hlog.traced.events
  have hsame : others = .answered id call.1 :: (events ++ [.asked id demanded unbox]) := by
    refine List.append_cancel_right (hothers.symm.trans (htrace.trans ?_))
    simp
  refine ⟨events, htrace, ?_⟩
  rw [hbearer, hpossible _ hlog.formed hbearer (by rw [horigin']; rfl),
    hpossible _ h.formed rfl (by rw [horigin]; rfl), ← hsame]
  exact hknown

end Calls

end Evaluation

namespace Analysis

/-- A name that is not bound to a definition keeps what is known when a demand finds a conflict, and
so does every other name.  A name that is bound to a definition is narrowed by the demand and by
whatever is answered, conflict or not: it keeps what is known just if it agrees, each time, with all
of what is demanded and answered or with nothing of it. -/
theorem known_after_conflict (unit : Expr) (file : String) (options : Options)
    {session : Session Progress}
    (hreached : Evaluation.Reaches (Survey.ofUnit unit file options.topLevel) session)
    (depth : Nat) (active searching : List NodeId) (id : NameId) (demanded : Kinds)
    (unbox : Bool) :
    let definer := Evaluation.evaluate (Survey.ofUnit unit file options.topLevel).defs depth active
      searching
    let call := (ScopeM.ensure definer id demanded unbox).run session
    (session.tree.definition? id = none →
      Evaluation.FindsConflict definer id demanded unbox session →
        ∀ other, call.2.tree.possible other = session.tree.possible other) ∧
    ∀ node, session.tree.definition? id = some node →
      ∃ events, call.2.trace =
          .answered id call.1 :: (events ++ .asked id demanded unbox :: session.trace) ∧
        let evidence := call.2.tree.evidence (call.2.tree.bearer id)
          (.answered id call.1 :: (events ++ [.asked id demanded unbox]))
        call.2.tree.possible id = (session.tree.possible id).narrowAll evidence ∧
          (call.2.tree.possible id = session.tree.possible id ↔ ∀ kinds ∈ evidence,
            session.tree.possible id ⊆ kinds ∨
              (session.tree.possible id).meets kinds = false) := by
  have hground := hreached.grounded (Survey.kept_ofUnit unit file options.topLevel).formed
  intro definer call
  refine ⟨fun hnone hconflict => ?_, fun node hnode => ?_⟩
  · have hrefuses := (Evaluation.findsConflict_iff_refuses hground.formed hnone demanded
      unbox).mp hconflict
    exact Evaluation.possible_of_refuses hground.formed hnone hrefuses unbox
  · obtain ⟨events, htrace, hpossible⟩ := Evaluation.possible_ensure hground
      (Survey.ofUnit unit file options.topLevel).defs depth active searching hnode demanded unbox
    refine ⟨events, htrace, hpossible, ?_⟩
    rw [hpossible]
    exact Kinds.narrowAll_eq_self_iff

/-- A name that is defined as a number, and then looked up where text is required. -/
def mistyped : Expr :=
  let mark (id : Nat) : Mark := ⟨⟨id⟩, .nowhere⟩
  .frame (mark 3) [
    .of "x" (.literal (mark 0) (.int 1)),
    .of "a" (.enforce (mark 2) (.lookup (mark 1) ["x"]) {.str})]

/-- The demand for text finds a conflict, and then nothing but text is possible for the number. -/
theorem known_after_conflict_mistyped :
    let surveyed := Survey.ofUnit mistyped "mistyped" (default : Options).topLevel
    let session := Evaluation.classified surveyed
    let definer := Evaluation.definer surveyed.defs
    let call := (ScopeM.ensure definer ⟨0⟩ {.str} true).run session
    Evaluation.FindsConflict definer ⟨0⟩ {.str} true session ∧
      session.tree.possible ⟨0⟩ = .any ∧ call.2.tree.possible ⟨0⟩ = {.str} ∧
        ∃ events, call.2.trace =
            .answered ⟨0⟩ call.1 :: (events ++ .asked ⟨0⟩ {.str} true :: session.trace) ∧
          call.2.tree.possible ⟨0⟩ = (session.tree.possible ⟨0⟩).narrowAll
            (call.2.tree.evidence (call.2.tree.bearer ⟨0⟩)
              (.answered ⟨0⟩ call.1 :: (events ++ [.asked ⟨0⟩ {.str} true]))) := by
  intro surveyed session definer call
  obtain ⟨-, hbound⟩ := known_after_conflict mistyped "mistyped" default
    (Evaluation.classified_reaches mistyped "mistyped" (default : Options).topLevel)
    (Evaluation.depthOf surveyed.defs) [] [] ⟨0⟩ {.str} true
  obtain ⟨events, htrace, hpossible, -⟩ := hbound ⟨0⟩ (by decide +kernel)
  exact ⟨by decide +kernel, by decide +kernel, by decide +kernel, events, htrace, hpossible⟩

/-- A conflict does not mean that what is known stays as it is. -/
theorem not_known_kept :
    ¬ ∀ (unit : Expr) (file : String) (options : Options) (session : Session Progress),
      Evaluation.Reaches (Survey.ofUnit unit file options.topLevel) session →
        ∀ (id : NameId) (demanded : Kinds) (unbox : Bool),
          let definer := Evaluation.definer (Survey.ofUnit unit file options.topLevel).defs
          Evaluation.FindsConflict definer id demanded unbox session →
            ((ScopeM.ensure definer id demanded unbox).run session).2.tree.possible id =
              session.tree.possible id := by
  intro hall
  have hkept := hall mistyped "mistyped" default _
    (Evaluation.classified_reaches mistyped "mistyped" (default : Options).topLevel) ⟨0⟩ {.str} true
    (by decide +kernel)
  have hlost : ¬ ((ScopeM.ensure (Evaluation.definer (Survey.ofUnit mistyped "mistyped"
      (default : Options).topLevel).defs) ⟨0⟩ {.str} true).run (Evaluation.classified
        (Survey.ofUnit mistyped "mistyped" (default : Options).topLevel))).2.tree.possible ⟨0⟩ =
      (Evaluation.classified (Survey.ofUnit mistyped "mistyped"
        (default : Options).topLevel)).tree.possible ⟨0⟩ := by decide +kernel
  exact hlost hkept

end Analysis

end FrameLang
