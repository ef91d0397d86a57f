import FrameLang.Proofs.Analysis.Coverage
import FrameLang.Proofs.Analysis.Narrowing
import FrameLang.Proofs.Analysis.Nesting

/-!
# Evaluation comes to an end

Definitions may refer to themselves and to each other in circles, and a search for the
name that a lookup means may evaluate other nodes, which may search for names in their
turn.  Two things keep this finite.

* A node is not evaluated while its evaluation is going on, so every evaluation inside
  another one has fewer nodes left (`idle`).  Hence the recursion of evaluation is
  well-founded as it is (`unbounded`), and the depth that it is given is never used up
  (`evaluate_eq_unbounded`).
* What a name is inherited from is an earlier name, in each tree that a run goes through.
  Hence the recursions along the sources of names come to their end by themselves, and
  the checks that they make on the way never fail (`Unguarded`).

## Strategy

Both is put together with the nesting of evaluations and searches
(`Evaluation.orderly_ofUnit`).  The nodes under evaluation and the lookups being searched
are parameters of an evaluation, and they are what the trace says they are.
-/

namespace FrameLang

/-! ## Recursion along sources -/

/-- The recursions along what names are inherited from, as they are without a look at positions. -/
structure ScopeM.Unguarded {σ : Type} (definer : Definer σ) (session : Session σ) : Prop where
  follow : ∀ id source demanded unbox, (session.tree.name id).origin = .delegated source →
    (follow definer id demanded unbox).run session =
      (follow definer source demanded unbox).run (session.demanding id demanded unbox)
  hasChild : ∀ id source component, (session.tree.name id).origin.source? = some source →
    session.tree.hasChild id component =
      ((session.tree.child? id component).isSome || session.tree.hasChild source component)
  origin_masked : ∀ id source mask component, (session.tree.name id).origin = .masked source mask →
    originOfChild definer id component session =
      if session.tree.hasChild source component = true then
        let inherited := (inheritedChild definer source component).run session
        (.masked inherited.1 .any, inherited.2)
      else (.free .any, session)
  origin_delegated : ∀ id source component, (session.tree.name id).origin = .delegated source →
    originOfChild definer id component session =
      let made :=
        if session.tree.hasChild source component = true then session
        else ((createChild definer source component).run session).2
      if made.tree.hasChild source component = true then
        let inherited := (inheritedChild definer source component).run made
        (.delegated inherited.1, inherited.2)
      else (.free .any, made)
  possible_masked : ∀ id source mask, (session.tree.name id).origin = .masked source mask →
    session.tree.possible id = session.tree.possible source ∩ mask
  possible_delegated : ∀ id source, (session.tree.name id).origin = .delegated source →
    session.tree.possible id = session.tree.possible source

theorem ScopeTree.Formed.unguarded {σ : Type} {session : Session σ} (h : session.tree.Formed)
    (definer : Definer σ) : ScopeM.Unguarded definer session where
  follow id source demanded unbox horigin := by
    have hlt := (h.source id source (by rw [horigin]; rfl)).1
    rw [ScopeM.run_follow, horigin]
    exact if_pos hlt
  hasChild id source component hsource := by
    rw [ScopeTree.hasChild, hsource]
    exact congrArg ((session.tree.child? id component).isSome || ·)
      (dif_pos (h.source id source hsource).1)
  origin_masked id source mask component horigin := by
    have hlt := (h.source id source (by rw [horigin]; rfl)).1
    simp only [ScopeM.originOfChild, horigin, hlt, true_and]
  origin_delegated id source component horigin := by
    have hlt := (h.source id source (by rw [horigin]; rfl)).1
    simp only [ScopeM.originOfChild, horigin, hlt, if_true]
  possible_masked _ _ _ horigin := ScopeTree.possible_of_masked h horigin
  possible_delegated _ _ horigin := ScopeTree.possible_of_delegated h horigin

namespace Evaluation

open ScopeM

/-! ## Recursion of evaluation -/

/-- The number of nodes that are not under evaluation. -/
def idle (layout : Layout) (active : List NodeId) : Nat :=
  (layout.nodes.keys.filter fun node => node ∉ active).length

theorem idle_cons_lt {layout : Layout} {active : List NodeId} {id : NodeId} {placement : Placement}
    (hplaced : layout.nodes.find? id = some placement) (hidle : id ∉ active) :
    idle layout (id :: active) < idle layout active := by
  have hkey : id ∈ layout.nodes.keys := by
    rw [Table.mem_keys_iff, hplaced]
    rfl
  have hrest : (layout.nodes.keys.filter fun node => node ∉ id :: active) =
      (layout.nodes.keys.filter fun node => node ∉ active).filter fun node => node ≠ id := by
    rw [List.filter_filter]
    refine List.filter_congr fun node _ => ?_
    simp
  unfold idle
  rw [hrest]
  refine List.length_filter_lt_length_iff_exists.mpr ⟨id, ?_, by simp⟩
  exact List.mem_filter.mpr ⟨hkey, by simpa using hidle⟩

/-- Evaluate a node, without any bound on the depth. -/
def unbounded (layout : Layout) (active searching : List NodeId) : Definer Progress :=
  fun id demanded unbox => do
    match _hplaced : layout.nodes.find? id with
    | none => pure demanded
    | some ⟨expr, scope⟩ =>
        if _hidle : id ∈ active then do
          note (.reentered id)
          pure ((← defs).kindsOf id)
        else do
          note (.entered id demanded)
          let proven ←
            rule (unbounded layout (id :: active) searching)
              (unbounded layout (id :: active) (id :: searching))
              searching scope demanded unbox expr
          modifyDefs fun progress => progress.prove id proven
          note (.left id proven)
          pure proven
termination_by idle layout active
decreasing_by
  · exact idle_cons_lt _hplaced _hidle
  · exact idle_cons_lt _hplaced _hidle

/-- A depth above the number of nodes that are not under evaluation is not used up. -/
theorem evaluate_eq_unbounded {layout : Layout} {depth : Nat} {active : List NodeId}
    (h : idle layout active < depth) (searching : List NodeId) :
    evaluate layout depth active searching = unbounded layout active searching := by
  induction depth generalizing active searching with
  | zero => exact absurd h (Nat.not_lt_zero _)
  | succ depth ih =>
      funext id demanded unbox
      rw [evaluate, unbounded]
      dsimp only
      cases hplaced : layout.nodes.find? id with
      | none => rfl
      | some placement =>
          dsimp only
          by_cases hactive : id ∈ active
          · rw [if_pos hactive, dif_pos hactive]
          · have hlt := Nat.lt_of_lt_of_le (idle_cons_lt hplaced hactive) (Nat.le_of_lt_succ h)
            rw [if_neg hactive, dif_neg hactive, ih hlt, ih hlt]

theorem idle_lt_depthOf (layout : Layout) (active : List NodeId) :
    idle layout active < depthOf layout := by
  have hle := List.length_filter_le (fun node => node ∉ active) layout.nodes.keys
  have hsize : layout.nodes.keys.length = layout.nodes.size := List.length_map ..
  exact Nat.lt_succ_of_le (hsize ▸ hle)

/-! ## Whole units -/

/-- All requests that are made once every lookup has been classified, in order. -/
def requests (surveyed : Session Layout) : List Ask :=
  (byPriority (classified surveyed).tree surveyed.defs.demands).flatMap Demand.asks

/-- The session after some requests have been made. -/
def answeredIn (surveyed : Session Layout) (asks : List Ask) : Session Progress :=
  ((asks.forM (answer surveyed.defs)).run (classified surveyed)).2

/-- What is kept when a lookup is classified and when a request is made holds in the end. -/
theorem answeredIn_preserves (kept : Session Progress → Prop) {surveyed : Session Layout}
    (asks : List Ask)
    (hclassify : ∀ id session, kept session → kept ((classify surveyed.defs id).run session).2)
    (hanswer : ∀ ask session, kept session → kept ((answer surveyed.defs ask).run session).2)
    (h : kept (start surveyed)) : kept (answeredIn surveyed asks) := by
  have hclassified : kept (classified surveyed) :=
    forM_preserves kept surveyed.defs.lookups (fun id _ => hclassify id) h
  exact forM_preserves kept asks (fun ask _ => hanswer ask) hclassified

theorem run_meet (layout : Layout) (demands : List Demand) (session : Session Progress) :
    (meet layout demands).run session =
      ((demands.flatMap Demand.asks).forM (answer layout)).run session := by
  unfold meet
  induction demands generalizing session with
  | nil => rfl
  | cons demand rest ih =>
      rw [run_forM_cons, ih, List.flatMap_cons, run_forM_append]

theorem finished_eq_checked (surveyed : Session Layout) :
    finished surveyed = (checkMasks.run (answeredIn surveyed (requests surveyed))).2 := by
  unfold answeredIn requests
  rw [← run_meet]
  rfl

/-- The evaluation of a unit comes to an end, and so do, in due order, the evaluations and searches
that it consists of. -/
structure Orderly (unit : Expr) (surveyed : Session Layout) : Prop where
  /-- Requests need no bound on the depth. -/
  definer : definer surveyed.defs = unbounded surveyed.defs [] []
  /-- Nor do searches. -/
  during : ∀ id, evaluate surveyed.defs (depthOf surveyed.defs) [] [id] =
    unbounded surveyed.defs [] [id]
  /-- No recursion along sources is cut short, from the first step to the last. -/
  unguarded : (∀ definer : Definer Progress, Unguarded definer (start surveyed)) ∧
    Relation.ReflTransGen (fun before after => before.Step Progress.Learns after ∧
      ∀ definer, Unguarded definer after) (start surveyed) (finished surveyed)
  /-- No node is evaluated while its evaluation is going on. -/
  entered : ∀ node demanded earlier, .entered node demanded :: earlier <:+ (finished surveyed).trace →
    node ∉ activeIn earlier
  /-- No lookup is searched while its search is going on. -/
  begun : ∀ node earlier, .searching node :: earlier <:+ (finished surveyed).trace →
    node ∉ searchedIn earlier
  /-- Every lookup is searched once, and found once. -/
  once : ∀ mark path, .lookup mark path ∈ unit.nodes →
    (finished surveyed).trace.count (.searching mark.id) = 1 ∧
      (finished surveyed).trace.countP (Event.resolves mark.id) = 1
  /-- An evaluation leaves the nodes under evaluation and the lookups being searched as they are. -/
  evaluates : ∀ active searching,
    (unbounded surveyed.defs active searching).Maintains (Nested active searching)
  /-- So does a search for what a lookup means. -/
  resolves : ∀ active searching scope mark path session, Nested active searching session →
    Nested active searching ((resolve (unbounded surveyed.defs active (mark.id :: searching))
      searching scope mark path).run session).2
  /-- So does a demand on a name. -/
  ensures : ∀ active searching id demanded unbox session, Nested active searching session →
    Nested active searching
      ((ensure (unbounded surveyed.defs active searching) id demanded unbox).run session).2
  /-- So does a lookup in a scope. -/
  looks : ∀ active searching scope path span session, Nested active searching session →
    Nested active searching
      ((lookup (unbounded surveyed.defs active searching) scope path span).run session).2
  /-- Nothing is under evaluation or being searched whenever a lookup has been classified. -/
  classified : ∀ done, done <+: surveyed.defs.lookups → Nested [] [] (classifiedIn surveyed done)
  /-- Nor whenever a request has been met. -/
  answered : ∀ done, done <+: requests surveyed → Nested [] [] (answeredIn surveyed done)

/-- A session that evaluation goes through has all names inherited from earlier ones. -/
theorem unguarded_of_runs {before after : Session Progress}
    (h : before.Runs Progress.Learns after) (hformed : before.tree.Formed) :
    Relation.ReflTransGen (fun before after => before.Step Progress.Learns after ∧
      ∀ definer, Unguarded definer after) before after := by
  induction h with
  | refl => exact .refl
  | tail hruns hstep ih =>
      have hthird := hstep.formed (Session.Runs.formed hruns hformed)
      exact ih.tail ⟨hstep, hthird.unguarded⟩

theorem orderly_ofUnit {unit : Expr} (hdistinct : unit.Distinct) (file : String)
    (topLevel : Bool) : Orderly unit (Survey.ofUnit unit file topLevel) := by
  have hkept := Survey.kept_ofUnit unit file topLevel
  have hstart : (start (Survey.ofUnit unit file topLevel)).tree.Formed := hkept.formed
  have hplaced : ∀ id placement, (Survey.ofUnit unit file topLevel).defs.nodes.find? id =
      some placement → placement.expr.id = id := fun id placement h => (Survey.found_ofUnit h).2.1
  have hnested : ∀ active searching,
      (unbounded (Survey.ofUnit unit file topLevel).defs active searching).Maintains
        (Nested active searching) := by
    intro active searching
    rw [← evaluate_eq_unbounded (idle_lt_depthOf _ active) searching]
    exact evaluate_nested hplaced _ active searching
  have hclassified : ∀ done, Nested [] [] (classifiedIn (Survey.ofUnit unit file topLevel) done) :=
    fun done => forM_preserves (Nested [] []) done (fun id _ _ h => classify_nested hplaced id h)
      (nested_start hkept.untraced rfl)
  have hanswered : ∀ done, Nested [] [] (answeredIn (Survey.ofUnit unit file topLevel) done) :=
    fun done => answeredIn_preserves (Nested [] []) done
      (fun id _ h => classify_nested hplaced id h) (fun ask _ h => answer_nested hplaced ask h)
      (nested_start hkept.untraced rfl)
  have hfinished : Nested [] [] (finished (Survey.ofUnit unit file topLevel)) := by
    rw [finished_eq_checked]
    exact checkMasks_nested (hanswered _)
  exact {
    definer := evaluate_eq_unbounded (idle_lt_depthOf _ []) []
    during := fun id => evaluate_eq_unbounded (idle_lt_depthOf _ []) [id]
    unguarded := ⟨hstart.unguarded,
      unguarded_of_runs ((finished_operated _).runs hstart) hstart⟩
    entered := fun _ _ earlier h => hfinished.disciplined _ earlier h
    begun := fun _ earlier h => hfinished.disciplined _ earlier h
    once := fun mark path hmem => by
      obtain ⟨scope, hscope⟩ :=
        @Survey.placed_ofUnit unit file topLevel hdistinct (.lookup mark path) hmem
      obtain ⟨name, hname⟩ :
          ∃ name, (finished (Survey.ofUnit unit file topLevel)).defs.resolved.find? mark.id =
            some name := finished_resolves hscope
      rw [hfinished.searches, hfinished.findings, hname]
      simp
    evaluates := hnested
    resolves := fun active searching scope mark path session h =>
      resolve_nested (hnested active (mark.id :: searching)) scope path h
    ensures := fun active searching id demanded unbox session h =>
      ensure_maintains (nested_indifferent active searching) (hnested active searching) id demanded
        unbox h
    looks := fun active searching scope path span session h =>
      lookup_maintains (nested_indifferent active searching) (hnested active searching) scope path
        span h
    classified := fun done _ => hclassified done
    answered := fun done _ => hanswered done }

end Evaluation

/-- The analysis of a unit whose nodes have distinct identities comes to an end, however its
definitions refer to each other.  No node is evaluated and no lookup is searched on behalf of
itself, each lookup is searched once, and whatever is done leaves the nodes under evaluation and the
lookups being searched as they were. -/
theorem Analysis.evaluation_ends {unit : Expr} (hdistinct : unit.Distinct) (file : String)
    (options : Options) :
    (Evaluation.Orderly unit (Survey.ofUnit unit file options.topLevel)) ∧
      (analyse unit file options).trace =
        (Evaluation.finished (Survey.ofUnit unit file options.topLevel)).trace :=
  ⟨Evaluation.orderly_ofUnit hdistinct file options.topLevel, by rw [analyse]⟩

/-- Two definitions that refer to each other meet each other again, and come to an end. -/
theorem Analysis.evaluation_ends_circular :
    let unit : Expr := .frame ⟨⟨2⟩, .nowhere⟩
      [⟨"a", .nowhere, .lookup ⟨⟨0⟩, .nowhere⟩ ["b"]⟩, ⟨"b", .nowhere, .lookup ⟨⟨1⟩, .nowhere⟩ ["a"]⟩]
    unit.Distinct ∧ .reentered ⟨0⟩ ∈ (analyse unit "unit" default).trace ∧
      Evaluation.Orderly unit (Survey.ofUnit unit "unit" (default : Options).topLevel) ∧
        (analyse unit "unit" default).trace =
          (Evaluation.finished (Survey.ofUnit unit "unit" (default : Options).topLevel)).trace :=
  ⟨by decide, by decide +kernel, Analysis.evaluation_ends (by decide) "unit" default⟩

end FrameLang
