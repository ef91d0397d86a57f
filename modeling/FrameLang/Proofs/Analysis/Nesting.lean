import FrameLang.Proofs.Analysis.Evaluation
import FrameLang.Proofs.Scope.Invariance

/-!
# How evaluations and searches nest

The trace of a session tells which nodes are under evaluation (`activeIn`) and which
lookups are being searched (`searchedIn`): a node counts from the event with which its
evaluation begins until the event with which it ends.  An evaluation is handed both as
parameters.  The trace and the parameters agree (`Nested`), so every evaluation comes
back with both sets as it has found them (`evaluate_nested`).

## Strategy

Each event has a condition of its own: a node is entered only if it is not under
evaluation, a lookup is searched only if it is not being searched, and what ends is what
began last (`Event.Fits`).  `Nested` says that all events of the trace meet theirs, and
it counts the searches of each lookup.  Demands and lookups only add events that
happen to names, to which `Nested` is indifferent, so only the steps of `evaluate` and
`resolve` have to be looked at.
-/

namespace FrameLang

/-! ## Events -/

namespace Event

/-- The nodes under evaluation after an event. -/
def activate (active : List NodeId) : Event → List NodeId
  | entered node _ => node :: active
  | left node _ => active.erase node
  | _ => active

/-- The lookups being searched after an event. -/
def search (searching : List NodeId) : Event → List NodeId
  | .searching node => node :: searching
  | resolved node _ => searching.erase node
  | _ => searching

/-- True when an event says that a lookup was found to mean a name. -/
def resolves (node : NodeId) : Event → Bool
  | resolved other _ => other = node
  | _ => false

/-- What has to be the case before an event. -/
def Fits (active searching : List NodeId) : Event → Prop
  | entered node _ => node ∉ active
  | reentered node => node ∈ active
  | left node _ => active.head? = some node
  | .searching node => node ∉ searching
  | resolved node _ => searching.head? = some node
  | _ => True

variable {event : Event} (h : event.Nominal)
include h

theorem Nominal.activate (active : List NodeId) : event.activate active = active := by
  cases event <;> first | rfl | cases h

theorem Nominal.search (searching : List NodeId) : event.search searching = searching := by
  cases event <;> first | rfl | cases h

theorem Nominal.resolves (node : NodeId) : event.resolves node = false := by
  cases event <;> first | rfl | cases h

theorem Nominal.fits (active searching : List NodeId) : event.Fits active searching := by
  cases event <;> trivial

theorem Nominal.ne_searching (node : NodeId) : event ≠ .searching node := by
  rintro rfl
  exact h

end Event

/-- The nodes under evaluation after some events, newest event first and innermost node first. -/
def activeIn (events : List Event) : List NodeId :=
  events.foldr (fun event active => event.activate active) []

/-- The lookups being searched after some events, newest event first and innermost lookup first. -/
def searchedIn (events : List Event) : List NodeId :=
  events.foldr (fun event searching => event.search searching) []

theorem activeIn_cons (event : Event) (earlier : List Event) :
    activeIn (event :: earlier) = event.activate (activeIn earlier) := rfl

theorem searchedIn_cons (event : Event) (earlier : List Event) :
    searchedIn (event :: earlier) = event.search (searchedIn earlier) := rfl

/-- Whatever happened could happen. -/
def Disciplined (events : List Event) : Prop :=
  ∀ event earlier, event :: earlier <:+ events → event.Fits (activeIn earlier) (searchedIn earlier)

theorem disciplined_nil : Disciplined [] := fun event earlier h => by
  cases List.suffix_nil.mp h

theorem Disciplined.cons {event : Event} {earlier : List Event} (h : Disciplined earlier)
    (hfits : event.Fits (activeIn earlier) (searchedIn earlier)) :
    Disciplined (event :: earlier) := by
  intro other rest hsuffix
  rcases List.suffix_cons_iff.mp hsuffix with heq | hsuffix
  · cases heq
    exact hfits
  · exact h other rest hsuffix

namespace Evaluation

open ScopeM

/-! ## Sessions -/

/-- The nodes under evaluation and the lookups being searched are just those that the trace tells
of, and each lookup has been searched once from when its search began. -/
structure Nested (active searching : List NodeId) (session : Session Progress) : Prop where
  evaluated : activeIn session.trace = active
  searched : searchedIn session.trace = searching
  disciplined : Disciplined session.trace
  unresolved : ∀ node ∈ searching, session.defs.resolved.find? node = none
  searches : ∀ node, session.trace.count (.searching node) =
    if node ∈ searching ∨ (session.defs.resolved.find? node).isSome then 1 else 0
  findings : ∀ node, session.trace.countP (Event.resolves node) =
    if (session.defs.resolved.find? node).isSome then 1 else 0

theorem nested_start {session : Session Progress} (htrace : session.trace = [])
    (hdefs : session.defs = ∅) : Nested [] [] session := by
  have hnone : ∀ node, session.defs.resolved.find? node = none := fun node => by
    rw [hdefs]
    rfl
  refine ⟨by rw [htrace]; rfl, by rw [htrace]; rfl, htrace ▸ disciplined_nil,
    fun _ hnode => (by cases hnode), fun node => ?_, fun node => ?_⟩
  · simp [htrace, hnone]
  · simp [htrace, hnone]

section Steps

variable {active searching : List NodeId} {session after : Session Progress}

/-- Only the trace and the meanings of lookups matter. -/
theorem Nested.of_eq (h : Nested active searching session) (htrace : after.trace = session.trace)
    (hdefs : after.defs.resolved = session.defs.resolved) : Nested active searching after := by
  obtain ⟨hevaluated, hsearched, hdisciplined, hunresolved, hsearches, hfindings⟩ := h
  rw [← htrace] at hevaluated hsearched hdisciplined hsearches hfindings
  rw [← hdefs] at hunresolved hsearches hfindings
  exact ⟨hevaluated, hsearched, hdisciplined, hunresolved, hsearches, hfindings⟩

/-- An event with which no search begins or ends. -/
theorem Nested.noting (h : Nested active searching session) (event : Event)
    (hfits : event.Fits active searching) (hsearching : ∀ node, event ≠ .searching node)
    (hresolves : ∀ node, event.resolves node = false)
    (hsearch : event.search searching = searching) :
    Nested (event.activate active) searching (session.noting event) where
  evaluated := (activeIn_cons event session.trace).trans (by rw [h.evaluated])
  searched := (searchedIn_cons event session.trace).trans (by rw [h.searched, hsearch])
  disciplined := h.disciplined.cons (by rw [h.evaluated, h.searched]; exact hfits)
  unresolved := h.unresolved
  searches node := (List.count_cons_of_ne (hsearching node)).trans (h.searches node)
  findings node := (List.countP_cons_of_neg (by simp [hresolves])).trans (h.findings node)

theorem nested_indifferent (active searching : List NodeId) :
    Session.Indifferent (Nested active searching) := by
  intro before after hdefs _ _ htrace h
  rcases htrace with htrace | ⟨event, hevent, htrace⟩
  · exact h.of_eq htrace (by rw [hdefs])
  · have hnoted := h.noting event (hevent.fits ..) hevent.ne_searching hevent.resolves
      (hevent.search _)
    rw [hevent.activate] at hnoted
    exact hnoted.of_eq htrace (by rw [hdefs]; rfl)

theorem Nested.reentering (h : Nested active searching session) {id : NodeId} (hid : id ∈ active) :
    Nested active searching (session.noting (.reentered id)) :=
  h.noting (.reentered id) hid (fun _ => by simp) (fun _ => rfl) rfl

theorem Nested.entering (h : Nested active searching session) {id : NodeId} (hid : id ∉ active)
    (demanded : Kinds) :
    Nested (id :: active) searching (session.noting (.entered id demanded)) :=
  h.noting (.entered id demanded) hid (fun _ => by simp) (fun _ => rfl) rfl

theorem Nested.leaving {id : NodeId} (h : Nested (id :: active) searching session)
    (proven : Kinds) : Nested active searching (leaving session id proven) := by
  have hproved : Nested (id :: active) searching
      (session.withDefs (session.defs.prove id proven)) := h.of_eq rfl rfl
  have hleft := hproved.noting (.left id proven) rfl (fun _ => by simp) (fun _ => rfl) rfl
  rwa [Event.activate, List.erase_cons_head] at hleft

/-- The search for what a lookup means begins. -/
theorem Nested.beginning (h : Nested active searching session) {id : NodeId}
    (hid : id ∉ searching) (hnone : session.defs.resolved.find? id = none) :
    Nested active (id :: searching) (session.noting (.searching id)) where
  evaluated := (activeIn_cons _ session.trace).trans h.evaluated
  searched := (searchedIn_cons _ session.trace).trans (by rw [h.searched]; rfl)
  disciplined := h.disciplined.cons (by rw [h.evaluated, h.searched]; exact hid)
  unresolved := List.forall_mem_cons.mpr ⟨hnone, h.unresolved⟩
  searches node := by
    have hold := h.searches node
    -- the count goes up for this lookup only, and it has been zero so far
    change (Event.searching id :: session.trace).count (.searching node) =
      if node ∈ id :: searching ∨ (session.defs.resolved.find? node).isSome then 1 else 0
    rw [List.count_cons, hold]
    by_cases heq : id = node
    · subst heq
      simp [hid, hnone]
    · have hne : node ≠ id := fun h => heq h.symm
      simp [heq, hne]
  findings node := (List.countP_cons_of_neg (by simp [Event.resolves])).trans (h.findings node)

/-- The search for what a lookup means comes to its end. -/
theorem Nested.ending {id : NodeId} (h : Nested active (id :: searching) session)
    (hid : id ∉ searching) (name : NameId) :
    Nested active searching (resolving session id name) := by
  have hfind : ∀ node, (resolving session id name).defs.resolved.find? node =
      if id = node then some name else session.defs.resolved.find? node :=
    fun node => session.defs.find?_resolve id node name
  -- the search ends as the lookup comes to mean a name, so either says that it has begun
  refine ⟨(activeIn_cons _ session.trace).trans h.evaluated,
    (searchedIn_cons _ session.trace).trans ?_, h.disciplined.cons ?_, fun node hnode => ?_,
    fun node => (List.count_cons_of_ne (by simp)).trans ?_, fun node => ?_⟩
  · rw [h.searched, Event.search, List.erase_cons_head]
  · rw [h.evaluated, h.searched]
    rfl
  · rw [hfind, if_neg]
    · exact h.unresolved node (List.mem_cons_of_mem _ hnode)
    · rintro rfl
      exact hid hnode
  · have hold : (session.withDefs (session.defs.resolve id name)).trace.count
        (.searching node) = _ := h.searches node
    rw [hfind, hold]
    by_cases heq : id = node
    · simp [heq]
    · have hne : node ≠ id := fun h => heq h.symm
      simp [heq, hne]
  · have hold := h.findings node
    change (Event.resolved id name :: session.trace).countP (Event.resolves node) = _
    rw [List.countP_cons, hold, hfind]
    by_cases heq : id = node
    · subst heq
      simp [Event.resolves, h.unresolved id (List.mem_cons_self ..)]
    · simp [Event.resolves, heq]

theorem Nested.ensureIntrinsic (h : Nested active searching session) (scope : ScopeId)
    (node : NodeId) (demanded : Kinds) (unbox : Bool) (span : Span) :
    Nested active searching
      ((ensureIntrinsic scope node demanded unbox span).run session).2 := by
  refine h.of_eq (trace_ensureIntrinsic ..) ?_
  rw [run_ensureIntrinsic]
  dsimp only
  split <;> rfl

theorem Nested.leaf (h : Nested active searching session) (span : Span)
    (natural demanded : Kinds) :
    Nested active searching ((leaf span natural demanded).run session).2 := by
  rw [run_leaf]
  split
  · exact h
  · exact h.of_eq rfl rfl

end Steps

/-! ## Evaluation -/

section Evaluations

variable {layout : Layout} {active searching : List NodeId} {session : Session Progress}

theorem resolve_nested {during : Definer Progress} {mark : Mark}
    (hduring : during.Maintains (Nested active (mark.id :: searching))) (scope : ScopeId)
    (path : List String) (h : Nested active searching session) :
    Nested active searching ((resolve during searching scope mark path).run session).2 := by
  rw [run_resolve]
  cases hresolved : session.defs.resolved.find? mark.id with
  | some name => exact h
  | none =>
      dsimp only
      split
      · exact h
      · next hid =>
        have hfound := lookup_maintains (nested_indifferent _ _) hduring scope path mark.span
          (h.beginning hid hresolved)
        exact hfound.ending hid _

theorem rule_nested {again during : Definer Progress} {expr : Expr}
    (hagain : again.Maintains (Nested active searching))
    (hduring : during.Maintains (Nested active (expr.id :: searching))) (scope : ScopeId)
    (demanded : Kinds) (unbox : Bool) (h : Nested active searching session) :
    Nested active searching
      ((rule again during searching scope demanded unbox expr).run session).2 := by
  rw [run_rule]
  cases expr.way with
  | leaf natural => exact h.leaf expr.span natural demanded
  | lookup path =>
      have hfound := resolve_nested hduring scope path h
      dsimp only
      cases ((resolve during searching scope expr.mark path).run session).1 with
      | some name =>
          exact ensure_maintains (nested_indifferent _ _) hagain name demanded unbox hfound
      | none => exact hfound
  | coalesce primary fallback => exact hagain primary _ _ _ (hagain fallback _ _ _ h)
  | choose consequent alternative => exact hagain alternative _ _ _ (hagain consequent _ _ _ h)
  | arithmetic left right =>
      have hoperands := hagain right .number true _ (hagain left .number true _ h)
      exact (hoperands.ensureIntrinsic ..).ensureIntrinsic ..
  | enforce value kinds => exact (hagain value kinds true _ h).leaf ..
  | body node => exact hagain node demanded unbox session h

/-- Every evaluation comes back with the nodes under evaluation and the lookups being searched as
it has found them. -/
theorem evaluate_nested
    (hplaced : ∀ id placement, layout.nodes.find? id = some placement → placement.expr.id = id)
    (depth : Nat) (active searching : List NodeId) :
    (evaluate layout depth active searching).Maintains (Nested active searching) := by
  induction depth generalizing active searching with
  | zero => exact fun _ _ _ _ h => h
  | succ depth ih =>
      intro id demanded unbox session h
      rw [run_evaluate_succ]
      cases hplacement : layout.nodes.find? id with
      | none => exact h
      | some placement =>
          obtain rfl := hplaced id placement hplacement
          dsimp only
          split
          · next hactive => exact h.reentering hactive
          · next hidle =>
            have hproven := rule_nested (ih (placement.expr.id :: active) searching)
              (ih (placement.expr.id :: active) (placement.expr.id :: searching)) placement.scope
              demanded unbox (h.entering hidle demanded)
            exact hproven.leaving _

end Evaluations

/-! ## Whole units -/

section Units

variable {layout : Layout} {session : Session Progress}
  (hplaced : ∀ id placement, layout.nodes.find? id = some placement → placement.expr.id = id)
include hplaced

theorem classify_nested (id : NodeId) (h : Nested [] [] session) :
    Nested [] [] ((classify layout id).run session).2 := by
  unfold classify
  split
  · next mark path scope hplacement =>
    obtain rfl : mark.id = id := hplaced id _ hplacement
    exact resolve_nested (evaluate_nested hplaced (depthOf layout) [] [mark.id]) scope path h
  · exact h

theorem answer_nested (ask : Ask) (h : Nested [] [] session) :
    Nested [] [] ((answer layout ask).run session).2 := by
  have hdefiner : (definer layout).Maintains (Nested [] []) :=
    evaluate_nested hplaced (depthOf layout) [] []
  cases ask with
  | node id kinds => exact hdefiner id kinds false session h
  | definition value =>
      unfold answer
      dsimp only
      split
      · exact ensure_maintains (nested_indifferent [] []) hdefiner _ .any false h
      · exact hdefiner value .any false session h

omit hplaced in
theorem checkMasks_nested (h : Nested [] [] session) :
    Nested [] [] (checkMasks.run session).2 := by
  obtain ⟨reporter, hchecked⟩ := checkMasks_reports session
  rw [hchecked]
  exact h.of_eq rfl rfl

end Units

end Evaluation

end FrameLang
