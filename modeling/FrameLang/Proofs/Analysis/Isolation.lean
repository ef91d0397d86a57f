import FrameLang.Proofs.Analysis.Coverage
import FrameLang.Proofs.Analysis.Division
import FrameLang.Proofs.Analysis.Echoes
import FrameLang.Proofs.Scope.Isolation

/-!
# What is written inside stays inside

A frame, a template or an instantiation keeps to itself which kinds are written down
inside of it.  If two units differ in nothing but literals and enforced kinds there, then
analysis finds out the same about every name that belongs to a scope outside, and proves
the same of every node that is evaluated outside (`Analysis.interior_isolated`).

## Strategy

The walk does not look at kinds (`Survey.echoes_ofUnit`), so both units have the same
scopes and names when evaluation starts, and their nodes are in the same places
(`Survey.alike_ofUnit`).  The scopes inside are sealed (`Survey.Divided.isSealed`).  From
there the two evaluations are followed side by side.  A node inside may be asked for
different kinds in each of them and may be proven to have different ones, but it only
passes demands on to nodes and names on its own side (`Evaluation.rule_answers`).  A
lookup inside means a name inside, a masked copy at the outermost, and this is where a
demand stops.

The nodes that are being evaluated and the lookups that are being resolved are the same
in both evaluations at any time, so no guard against re-entry can tell them apart.
-/

namespace FrameLang

/-! ## Definitions -/

/-- What has been found out is the same from outside. -/
structure Progress.Alike (interior : Interior) (tree : ScopeTree) (first second : Progress) :
    Prop where
  resolved : second.resolved = first.resolved
  kinds : ∀ node, ¬ interior.nodes node → second.kindsOf node = first.kindsOf node
  /-- A lookup means a name on its own side. -/
  meant : ∀ node name, first.resolved.find? node = some name →
    name.index < tree.names.size ∧
      (tree.isJunk name = false → (interior.Owns tree name ↔ interior.nodes node))

/-- A node is evaluated in the same place of two units, on its own side along with its heirs, and in
the same way if it is outside. -/
structure Placement.Alike (interior : Interior) (id : NodeId) (first second : Placement) :
    Prop where
  mark : second.expr.mark = first.expr.mark
  scope : second.scope = first.scope
  ways : first.expr.way.Alike second.expr.way
  way : ¬ interior.nodes id → second.expr.way = first.expr.way
  self : first.expr.id = id
  side : interior.scopes first.scope ↔ interior.nodes id
  heirs : ∀ heir ∈ first.expr.way.heirs, interior.nodes heir ↔ interior.nodes id

/-- Two units are laid out alike. -/
structure Layout.Alike (interior : Interior) (first second : Layout) : Prop where
  placed : ∀ id, Option.Rel (Placement.Alike interior id) (first.nodes.find? id)
    (second.nodes.find? id)
  size : second.nodes.size = first.nodes.size
  bindings : second.bindings = first.bindings
  lookups : second.lookups = first.lookups
  demands : second.demands = first.demands

namespace Progress

variable {interior : Interior} {tree : ScopeTree} {first second : Progress}

theorem lasting_alike (interior : Interior) : Interior.Lasting (Alike interior) := by
  refine fun before after _ _ hgrows h => ⟨h.resolved, h.kinds, fun node name hname => ?_⟩
  obtain ⟨hlt, hside⟩ := h.meant node name hname
  refine ⟨Nat.lt_of_lt_of_le hlt hgrows.size_names, fun hlive => ?_⟩
  rw [hgrows.isJunk hlt] at hlive
  rw [Interior.owns_iff_of_grows hgrows hlt]
  exact hside hlive

theorem Alike.prove (h : Alike interior tree first second) {node : NodeId} {proven proven' : Kinds}
    (hproven : ¬ interior.nodes node → proven' = proven) :
    Alike interior tree (first.prove node proven) (second.prove node proven') := by
  refine ⟨h.resolved, fun other hother => ?_, h.meant⟩
  rw [kindsOf_prove, kindsOf_prove]
  split
  · next heq =>
    subst heq
    rw [hproven hother, h.kinds node hother]
  · exact h.kinds other hother

theorem Alike.resolve (h : Alike interior tree first second) {node : NodeId} {name : NameId}
    (hlt : name.index < tree.names.size)
    (hside : tree.isJunk name = false → (interior.Owns tree name ↔ interior.nodes node)) :
    Alike interior tree (first.resolve node name) (second.resolve node name) := by
  refine ⟨?_, h.kinds, fun other meant hmeant => ?_⟩
  · rw [Progress.resolve, Progress.resolve, h.resolved]
  · rw [find?_resolve] at hmeant
    split at hmeant
    · next heq =>
      obtain rfl := Option.some.inj hmeant
      exact heq ▸ ⟨hlt, hside⟩
    · exact h.meant other meant hmeant

end Progress

namespace Evaluation

open Interior

variable {interior : Interior} {first second : Session Progress} {secret : Prop}

/-! ## Evaluations -/

theorem leaf_answers (h : interior.Conceals (Progress.Alike interior) first second) (span : Span)
    {natural natural' demanded demanded' : Kinds}
    (hsame : ¬ secret → natural' = natural ∧ demanded' = demanded) :
    interior.Answers (Progress.Alike interior) secret ((leaf span natural demanded).run first)
      ((leaf span natural' demanded').run second) := by
  rw [run_leaf, run_leaf]
  refine ⟨?_, fun hopen => ?_⟩
  · split <;> split <;> exact h.congr rfl rfl rfl rfl (by simp [Session.reporting, h.scoping])
  · obtain ⟨rfl, rfl⟩ := hsame hopen
    split <;> rfl

/-- A lookup means the same name in both sessions, on the side of the lookup. -/
theorem resolve_answers {during during' : Definer Progress} (hsound : during.Sound)
    (hmatches : interior.Matches (Progress.Alike interior) during during')
    (h : interior.Conceals (Progress.Alike interior) first second) (searching : List NodeId)
    {scope : ScopeId} {mark : Mark} (path : List String)
    (hside : interior.scopes scope ↔ interior.nodes mark.id) :
    interior.Answers (Progress.Alike interior) False
        ((resolve during searching scope mark path).run first)
        ((resolve during' searching scope mark path).run second) ∧
      ∀ name, ((resolve during searching scope mark path).run first).1 = some name →
        ((resolve during searching scope mark path).run first).2.tree.isJunk name = false →
          (interior.Owns ((resolve during searching scope mark path).run first).2.tree name ↔
            interior.nodes mark.id) := by
  rw [run_resolve, run_resolve, h.own.resolved]
  cases hfind : first.defs.resolved.find? mark.id with
  | some name =>
      refine ⟨⟨h, fun _ => rfl⟩, fun other hother => ?_⟩
      obtain rfl := Option.some.inj hother
      exact (h.own.meant mark.id name hfind).2
  | none =>
      dsimp only
      split
      -- a lookup that is being resolved already means nothing, in both sessions
      · exact ⟨⟨h, fun _ => rfl⟩, fun _ hnone => by cases hnone⟩
      · have hnoted := h.noting (.searching mark.id) (.searching mark.id)
        have hfound := lookup_answers (Progress.lasting_alike interior) hsound hmatches hnoted scope
          path mark.span
        have hlooked := ScopeM.lookedUp_lookup hsound scope path mark.span hnoted.formed
        rw [hfound.eq]
        generalize (ScopeM.lookup during scope path mark.span).run
          (first.noting (.searching mark.id)) = found at hfound hlooked ⊢
        -- what has been found stands in the scope of the lookup, so it is on the lookup's side
        have hmeant : found.2.tree.isJunk found.1 = false →
            (interior.Owns found.2.tree found.1 ↔ interior.nodes mark.id) := by
          intro hlive
          rw [← hside, Owns, hlooked.home hlive]
          simp [hlive]
        have hconceals := hfound.conceals
        refine ⟨⟨⟨hconceals.formed, hconceals.isSealed, hconceals.tree,
          hconceals.own.resolve hlooked.lt_size hmeant, hconceals.scoping⟩, fun _ => rfl⟩, fun name hname => ?_⟩
        obtain rfl := Option.some.inj hname
        exact hmeant

section Rules

variable {again again' during during' : Definer Progress} (hagain : again.Sound)
  (hagain' : interior.Matches (Progress.Alike interior) again again') (hduring : during.Sound)
  (hduring' : interior.Matches (Progress.Alike interior) during during')
include hagain hagain' hduring hduring'

/-- What a node inside is proven to have is a secret, and nothing else. -/
theorem rule_answers (h : interior.Conceals (Progress.Alike interior) first second) {id : NodeId}
    {placement placement' : Placement} (hplaced : placement.Alike interior id placement')
    (searching : List NodeId) {demanded demanded' : Kinds}
    (hdemanded : ¬ interior.nodes id → demanded' = demanded) (unbox : Bool) :
    interior.Answers (Progress.Alike interior) (interior.nodes id)
      ((rule again during searching placement.scope demanded unbox placement.expr).run first)
      ((rule again' during' searching placement'.scope demanded' unbox placement'.expr).run
        second) := by
  obtain ⟨expr, _⟩ := placement
  obtain ⟨expr', scope⟩ := placement'
  obtain ⟨hmark, rfl, hways, hway, hself, hside, hheirs⟩ := hplaced
  dsimp only at hmark hways hway hself hside hheirs ⊢
  have hid : expr'.id = expr.id := congrArg Mark.id hmark
  have hspan : expr'.span = expr.span := congrArg Mark.span hmark
  rw [run_rule, run_rule, hmark, hid, hspan]
  generalize expr.way = way at hways hway hheirs ⊢
  generalize expr'.way = way' at hways hway ⊢
  have hheir : ∀ heir ∈ way.heirs, ∀ (demanded demanded' : Kinds) (unbox : Bool)
      (first second : Session Progress), interior.Conceals (Progress.Alike interior) first second →
        (¬ interior.nodes id → demanded' = demanded) →
          interior.Answers (Progress.Alike interior) (interior.nodes id)
            ((again heir demanded unbox).run first) ((again' heir demanded' unbox).run second) :=
    fun heir hmem demanded demanded' unbox first second h hdemanded =>
      have hsame := hheirs heir hmem
      (hagain' heir demanded demanded' unbox first second h fun hopen =>
        hdemanded fun hinside => hopen (hsame.mpr hinside)).imp hsame.mp
  -- both nodes are evaluated in the same way, up to the kinds that are written down
  cases hways with
  | leaf natural natural' =>
      exact leaf_answers h expr.span fun hopen => ⟨Way.leaf.inj (hway hopen), hdemanded hopen⟩
  | lookup path =>
      have hexpr : interior.scopes scope ↔ interior.nodes expr.mark.id := by rwa [← hself] at hside
      obtain ⟨hfound, hmeant⟩ := resolve_answers hduring hduring' h searching path hexpr
      dsimp only
      rw [hfound.eq]
      cases hname : ((resolve during searching scope expr.mark path).run first).1 with
      | none => exact ⟨hfound.conceals, hdemanded⟩
      | some name =>
          -- the name is on the side of the lookup, unless the lookup has gone wrong
          have hside := hmeant name hname
          rw [show expr.mark.id = id from hself] at hside
          refine (ensure_answers (Progress.lasting_alike interior) hagain hagain' hfound.conceals
            (fun houtside => ?_) unbox).imp fun hinside => (hside hinside.1).mp hinside
          refine or_iff_not_imp_left.mpr fun hlive => hdemanded fun hinside => houtside ?_
          exact (hside (Bool.not_eq_true _ ▸ hlive)).mpr hinside
  | coalesce primary fallback =>
      have hfallback := hheir fallback (by simp [Way.heirs]) _ _ unbox _ _ h hdemanded
      have hprimary := hheir primary (by simp [Way.heirs]) (demanded ∪ {.unit})
        (demanded' ∪ {.unit}) unbox _ _ hfallback.conceals fun hopen => by rw [hdemanded hopen]
      refine ⟨hprimary.conceals, fun hopen => ?_⟩
      dsimp only
      rw [hprimary.same hopen, hfallback.same hopen, hdemanded hopen]
  | choose consequent alternative =>
      have hconsequent := hheir consequent (by simp [Way.heirs]) _ _ unbox _ _ h hdemanded
      have halternative := hheir alternative (by simp [Way.heirs]) _ _ unbox _ _
        hconsequent.conceals hdemanded
      refine ⟨halternative.conceals, fun hopen => ?_⟩
      dsimp only
      rw [halternative.same hopen, hconsequent.same hopen, hdemanded hopen]
  | arithmetic left right =>
      have hleft := hheir left (by simp [Way.heirs]) .number .number true _ _ h fun _ => rfl
      have hright := hheir right (by simp [Way.heirs]) .number .number true _ _ hleft.conceals
        fun _ => rfl
      dsimp only
      generalize (again left .number true).run first = found at hleft hright ⊢
      generalize (again' left .number true).run second = found' at hleft hright ⊢
      generalize (again right .number true).run found.2 = other at hright ⊢
      generalize (again' right .number true).run found'.2 = other' at hright ⊢
      -- what is known of an operation belongs to its scope, and so to the side of its node
      have hkinds : ¬ interior.scopes scope →
          arithmeticKinds found'.1 other'.1 = arithmeticKinds found.1 other.1 := by
        rw [hside]
        exact fun hopen => by rw [hleft.same hopen, hright.same hopen]
      have hnatural := ensureIntrinsic_answers (Progress.lasting_alike interior) hright.conceals
        expr.id hkinds true expr.span
      exact (ensureIntrinsic_answers (Progress.lasting_alike interior) hnatural.conceals
        expr.id (fun hopen => hdemanded fun hinside => hopen (hside.mpr hinside)) unbox
          expr.span).imp hside.mp
  | enforce value kinds kinds' =>
      have hkinds : ¬ interior.nodes id → kinds' = kinds := fun hopen =>
        (Way.enforce.inj (hway hopen)).2
      have hvalue := hheir value (by simp [Way.heirs]) kinds kinds' true _ _ h hkinds
      exact leaf_answers hvalue.conceals expr.span fun hopen => ⟨hkinds hopen, hdemanded hopen⟩
  | body node => exact hheir node (by simp [Way.heirs]) _ _ unbox _ _ h hdemanded

end Rules

section Layouts

variable {layout layout' : Layout} (hlayout : layout.Alike interior layout')
include hlayout

theorem evaluate_matches (depth : Nat) (active searching : List NodeId) :
    interior.Matches (Progress.Alike interior) (evaluate layout depth active searching)
      (evaluate layout' depth active searching) := by
  induction depth generalizing active searching with
  | zero => exact fun _ _ _ _ _ _ h hdemanded => ⟨h, hdemanded⟩
  | succ depth ih =>
      intro id demanded demanded' unbox first second h hdemanded
      have hplaced := hlayout.placed id
      rw [run_evaluate_succ, run_evaluate_succ]
      generalize layout.nodes.find? id = placed? at hplaced ⊢
      generalize layout'.nodes.find? id = placed?' at hplaced ⊢
      cases hplaced with
      | none => exact ⟨h, hdemanded⟩
      | @some placement placement' hplaced =>
          dsimp only
          split
          · exact ⟨h.noting _ _, h.own.kinds id⟩
          · have hruled := rule_answers (evaluate_sound layout depth (id :: active) searching)
              (ih (id :: active) searching)
              (evaluate_sound layout depth (id :: active) (id :: searching))
              (ih (id :: active) (id :: searching))
              (h.noting (.entered id demanded) (.entered id demanded')) hplaced searching hdemanded
              unbox
            have hconceals := hruled.conceals
            exact ⟨⟨hconceals.formed, hconceals.isSealed, hconceals.tree,
              hconceals.own.prove hruled.same, hconceals.scoping⟩, hruled.same⟩

theorem depthOf_eq : depthOf layout' = depthOf layout := by
  rw [depthOf, hlayout.size, depthOf]

/-! ## Units -/

omit hlayout in
theorem forM_conceals {α : Type} {step step' : α → ScopeM Progress PUnit} (items : List α)
    (hstep : ∀ item (first second : Session Progress),
      interior.Conceals (Progress.Alike interior) first second →
        interior.Conceals (Progress.Alike interior) ((step item).run first).2
          ((step' item).run second).2)
    (h : interior.Conceals (Progress.Alike interior) first second) :
    interior.Conceals (Progress.Alike interior) ((items.forM step).run first).2
      ((items.forM step').run second).2 := by
  induction items generalizing first second with
  | nil => exact h
  | cons item rest ih => exact ih (hstep item _ _ h)

theorem classify_conceals (id : NodeId)
    (h : interior.Conceals (Progress.Alike interior) first second) :
    interior.Conceals (Progress.Alike interior) ((classify layout id).run first).2
      ((classify layout' id).run second).2 := by
  have hplaced := hlayout.placed id
  rw [run_classify, run_classify, depthOf_eq hlayout]
  generalize layout.nodes.find? id = placed? at hplaced ⊢
  generalize layout'.nodes.find? id = placed?' at hplaced ⊢
  cases hplaced with
  | none => exact h
  | @some placement placement' hplaced =>
      have hways := hplaced.ways
      have hside : interior.scopes placement.scope ↔ interior.nodes placement.expr.mark.id :=
        hplaced.side.trans (by rw [← hplaced.self]; rfl)
      dsimp only
      rw [hplaced.scope, hplaced.mark]
      generalize placement.expr.way = way at hways ⊢
      generalize placement'.expr.way = way' at hways ⊢
      cases hways with
      | lookup path =>
          exact (resolve_answers (evaluate_sound layout (depthOf layout) [] [id])
            (evaluate_matches hlayout (depthOf layout) [] [id]) h [] path hside).1.conceals
      | _ => exact h

theorem answer_conceals (ask : Ask) (h : interior.Conceals (Progress.Alike interior) first second) :
    interior.Conceals (Progress.Alike interior) ((answer layout ask).run first).2
      ((answer layout' ask).run second).2 := by
  have hmatches :
      interior.Matches (Progress.Alike interior) (definer layout) (definer layout') := by
    unfold definer
    rw [depthOf_eq hlayout]
    exact evaluate_matches hlayout (depthOf layout) [] []
  have hsound : (definer layout).Sound := evaluate_sound layout (depthOf layout) [] []
  cases ask with
  | node id kinds => exact (hmatches id kinds kinds false _ _ h fun _ => rfl).conceals
  | definition value =>
      unfold answer
      dsimp only
      rw [hlayout.bindings]
      cases layout.bindings.find? value with
      | none => exact (hmatches value .any .any false _ _ h fun _ => rfl).conceals
      | some name =>
          exact (ensure_answers (Progress.lasting_alike interior) hsound hmatches h
            (fun _ => .inr rfl) false).conceals

end Layouts

theorem checkMasks_conceals (h : interior.Conceals (Progress.Alike interior) first second) :
    interior.Conceals (Progress.Alike interior) (checkMasks.run first).2
      (checkMasks.run second).2 := by
  obtain ⟨reporter, hchecked⟩ := checkMasks_reports first
  obtain ⟨reporter', hchecked'⟩ := checkMasks_reports second
  have hscoping := scoping_checkMasks first
  have hscoping' := scoping_checkMasks second
  rw [hchecked] at hscoping ⊢
  rw [hchecked'] at hscoping' ⊢
  exact h.reporting (hscoping'.trans (h.scoping.trans hscoping.symm))

/-- Two units that are laid out alike end up the same from outside. -/
theorem finished_conceals {surveyed surveyed' : Session Layout}
    (hlayout : surveyed.defs.Alike interior surveyed'.defs) (htree : surveyed'.tree = surveyed.tree)
    (hreporter : surveyed'.reporter = surveyed.reporter)
    (hformed : surveyed.tree.Formed) (hsealed : interior.Sealed surveyed.tree) :
    interior.Conceals (Progress.Alike interior) (finished surveyed) (finished surveyed') := by
  have hstart : interior.Conceals (Progress.Alike interior) (start surveyed) (start surveyed') :=
    ⟨hformed, hsealed, htree ▸ .refl interior surveyed.tree,
      ⟨rfl, fun _ _ => rfl, fun _ _ hname => by cases hname⟩, congrArg Reporter.scoping hreporter⟩
  have hclassified : interior.Conceals (Progress.Alike interior) (classified surveyed)
      (classified surveyed') := by
    unfold classified classifyAll
    rw [hlayout.lookups]
    exact forM_conceals _ (fun id _ _ => classify_conceals hlayout id) hstart
  -- priorities are no secret, so the demands are made in the same order
  have hqueue : byPriority (classified surveyed').tree surveyed'.defs.demands =
      byPriority (classified surveyed).tree surveyed.defs.demands := by
    have hpriority : priority (classified surveyed').tree = priority (classified surveyed).tree :=
      funext fun demand => (hclassified.tree.scope demand.scope).priority
    unfold byPriority
    rw [hpriority, hlayout.demands]
  unfold finished settle meet
  dsimp only
  rw [hqueue]
  generalize byPriority (classified surveyed).tree surveyed.defs.demands = queue
  have hmet := forM_conceals queue (fun demand _ _ =>
    forM_conceals demand.asks fun ask _ _ => answer_conceals hlayout ask) hclassified
  rw [ScopeM.run_bind, ScopeM.run_bind]
  exact checkMasks_conceals hmet

end Evaluation

/-! ## The interior of a construct -/

namespace Survey

/-- The scopes inside of one that a construct has opened, and the nodes that the construct has
inside. -/
def interior (unit : Expr) (node : NodeId) (inner : ScopeId) (tree : ScopeTree) : Interior where
  scopes scope := inner ∈ tree.chain scope
  nodes := unit.Encloses node

variable {unit : Expr} {node : NodeId} {inner : ScopeId} {session : Session Layout}

theorem Divided.isSealed (h : Divided unit node inner session) (hformed : session.tree.Formed) :
    (interior unit node inner session.tree).Sealed session.tree := by
  have hchain : ∀ here outer rest, (session.tree.scope here).enclosing = outer :: rest →
      session.tree.chain here = here :: session.tree.chain outer := by
    intro here outer rest henclosing
    rw [ScopeTree.chain, ScopeTree.chain, henclosing,
      (hformed.enclosing here outer rest henclosing).2]
  constructor
  case scopes =>
    intro here outer rest henclosing houter
    change inner ∈ session.tree.chain here
    rw [hchain here outer rest henclosing]
    exact List.mem_cons_of_mem _ houter
  case delegates =>
    intro here outer rest henclosing hdelegates hhere
    change inner ∈ session.tree.chain here at hhere
    rw [hchain here outer rest henclosing] at hhere
    rcases List.mem_cons.mp hhere with rfl | houter
    · exact absurd (h.masks.symm.trans hdelegates) Bool.false_ne_true
    · exact houter
  case bound =>
    intro name value kinds horigin
    obtain ⟨scope, hscope, hside⟩ := h.bound name value kinds horigin
    refine Iff.trans ⟨?_, fun hinside => ⟨?_, scope, hscope, hinside⟩⟩ hside
    · rintro ⟨-, other, hother, hinside⟩
      obtain rfl := Option.some.inj (hscope.symm.trans hother)
      exact hinside
    · rw [ScopeTree.isJunk, NameRecord.isJunk_eq_false, horigin]
      simp

/-- A node is evaluated in the same place of two units that differ in nothing but kinds inside a
construct. -/
theorem alike_of_placed {first second : Expr} (hdistinct : first.Distinct)
    (hsame : first.blanked node false = second.blanked node false) {id : NodeId}
    {placement placement' : Placement} (hexpr : placement.expr ∈ first.nodes)
    (hid : placement.expr.id = id) (hexpr' : placement'.expr ∈ second.nodes)
    (hid' : placement'.expr.id = id) (hscope : placement'.scope = placement.scope)
    {tree : ScopeTree}
    (hside : inner ∈ tree.chain placement.scope ↔ first.Encloses node id) :
    placement.Alike (interior first node inner tree) id placement' := by
  rw [← Expr.map_fst_sided node false] at hexpr
  obtain ⟨⟨expr, side⟩, hmem, heq⟩ := List.mem_map.mp hexpr
  obtain rfl : expr = placement.expr := heq
  obtain ⟨other, hother, hmark, hways, hway⟩ := Expr.exists_counterpart hsame hmem
  have hmem' : other ∈ second.nodes :=
    Expr.map_fst_sided node false second ▸ List.mem_map_of_mem hother
  obtain rfl := List.inj_on_of_nodup_map ((Expr.distinct_iff hsame).mpr hdistinct) hmem' hexpr'
    ((congrArg Mark.id hmark).trans (hid.trans hid'.symm))
  have hencloses := Expr.encloses_iff hdistinct hmem
  rw [hid] at hencloses
  refine ⟨hmark, hscope, hways, fun houtside => hway ?_, hid, hside, fun heir hheir => ?_⟩
  · exact Bool.eq_false_iff.mpr fun hinside => houtside (hencloses.mpr hinside)
  · obtain ⟨value, hvalue, rfl⟩ := Expr.heir_sided node hmem hheir
    exact (Expr.encloses_iff hdistinct hvalue).trans hencloses.symm

theorem alike_ofUnit {first second : Expr} (hdistinct : first.Distinct)
    (hsame : first.blanked node false = second.blanked node false) (file : String) (topLevel : Bool)
    (h : Divided first node inner (ofUnit first file topLevel)) :
    (ofUnit first file topLevel).defs.Alike
      (interior first node inner (ofUnit first file topLevel).tree)
      (ofUnit second file topLevel).defs := by
  have hechoes := echoes_ofUnit node hsame file topLevel
  refine ⟨fun id => ?_, hechoes.size_nodes, hechoes.bindings, hechoes.lookups, hechoes.demands⟩
  have hscope := hechoes.scope id
  cases hplaced : (ofUnit first file topLevel).defs.nodes.find? id with
  | none =>
      rw [hplaced] at hscope
      rw [Option.map_eq_none_iff.mp hscope]
      exact .none
  | some placement =>
      rw [hplaced] at hscope
      obtain ⟨placement', hplaced', hsame'⟩ := Option.map_eq_some_iff.mp hscope
      obtain ⟨hexpr, hid, -⟩ := found_ofUnit hplaced
      obtain ⟨hexpr', hid', -⟩ := found_ofUnit hplaced'
      rw [hplaced']
      exact .some (alike_of_placed hdistinct hsame hexpr hid hexpr' hid' hsame'
        (h.placed id placement hplaced))

end Survey

/-! ## The outcome -/

namespace Analysis

/-- Two outcomes have the same scopes, names and lookups, and agree on everything that is not inside
of a given scope. -/
structure SameOutside (inner : ScopeId) (first second : Analysis) : Prop where
  size_names : second.tree.names.size = first.tree.names.size
  chain : ∀ scope, second.tree.chain scope = first.tree.chain scope
  path : ∀ name, (second.tree.name name).path = (first.tree.name name).path
  scope? : ∀ name, (second.tree.name name).scope? = (first.tree.name name).scope?
  scopeOf? : ∀ node, second.scopeOf? node = first.scopeOf? node
  nameOf? : ∀ node, second.nameOf? node = first.nameOf? node
  possible : ∀ name scope, (first.tree.name name).scope? = some scope →
    inner ∉ first.tree.chain scope → second.possible name = first.possible name
  mustUnbox : ∀ name, second.mustUnbox name = first.mustUnbox name
  kindsOf? : ∀ node scope, first.scopeOf? node = some scope →
    inner ∉ first.tree.chain scope → second.kindsOf? node = first.kindsOf? node

section Interiors

variable {first second : Expr} {node : NodeId} {inner : ScopeId} {file : String} {options : Options}
  (hdivided : Survey.Divided first node inner (Survey.ofUnit first file options.topLevel))
include hdivided

/-- Evaluations of units that differ in nothing but kinds inside a construct are the same from
outside. -/
theorem conceals_ofUnit (hdistinct : first.Distinct)
    (hsame : first.blanked node false = second.blanked node false) :
    (Survey.interior first node inner (Survey.ofUnit first file options.topLevel).tree).Conceals
      (Progress.Alike (Survey.interior first node inner
        (Survey.ofUnit first file options.topLevel).tree))
      (Evaluation.finished (Survey.ofUnit first file options.topLevel))
      (Evaluation.finished (Survey.ofUnit second file options.topLevel)) := by
  have hformed := (Survey.kept_ofUnit first file options.topLevel).formed
  have hechoes := Survey.echoes_ofUnit node hsame file options.topLevel
  exact Evaluation.finished_conceals
    (Survey.alike_ofUnit hdistinct hsame file options.topLevel hdivided) hechoes.tree
    hechoes.reporter hformed (hdivided.isSealed hformed)

omit hdivided in
/-- A scope that is outside in the end has been outside since the walk. -/
theorem not_mem_chain_ofUnit {scope : ScopeId}
    (hnot : inner ∉ (analyse first file options).tree.chain scope) :
    inner ∉ (Survey.ofUnit first file options.topLevel).tree.chain scope := by
  have hgrows := (Evaluation.finished_explored first file options.topLevel).2.evolves.grows
  rw [tree_analyse] at hnot
  exact fun hmem => hnot (hgrows.retains.chain_subset scope hmem)

/-- Evaluations that conceal what is inside agree on everything outside. -/
theorem sameOutside_of_conceals
    (hechoes : Survey.Echoes (Survey.ofUnit first file options.topLevel)
      (Survey.ofUnit second file options.topLevel))
    (hconceals : (Survey.interior first node inner
        (Survey.ofUnit first file options.topLevel).tree).Conceals
      (Progress.Alike (Survey.interior first node inner
        (Survey.ofUnit first file options.topLevel).tree))
      (Evaluation.finished (Survey.ofUnit first file options.topLevel))
      (Evaluation.finished (Survey.ofUnit second file options.topLevel))) :
    SameOutside inner (analyse first file options) (analyse second file options) := by
  have htree := hconceals.tree
  have hscopeOf : ∀ id,
      (analyse second file options).scopeOf? id = (analyse first file options).scopeOf? id :=
    hechoes.scope
  constructor
  case size_names => rw [tree_analyse, tree_analyse, htree.size_names]
  case chain =>
    rw [tree_analyse, tree_analyse]
    exact htree.chain
  case path =>
    rw [tree_analyse, tree_analyse]
    exact fun name => (htree.name name).path
  case scope? =>
    rw [tree_analyse, tree_analyse]
    exact fun name => (htree.name name).scope?
  case scopeOf? => exact hscopeOf
  case nameOf? =>
    intro id
    rw [nameOf?_analyse, nameOf?_analyse, hconceals.own.resolved]
  case possible =>
    intro name scope hscope hnot
    have houtside := not_mem_chain_ofUnit hnot
    rw [tree_analyse] at hscope
    rw [Analysis.possible, Analysis.possible, tree_analyse, tree_analyse]
    refine htree.possible hconceals.formed hconceals.isSealed ?_
    rintro ⟨-, other, hother, hinside⟩
    obtain rfl := Option.some.inj (hscope.symm.trans hother)
    exact houtside hinside
  case mustUnbox =>
    intro name
    rw [Analysis.mustUnbox, Analysis.mustUnbox, tree_analyse, tree_analyse, htree.mustUnbox]
  case kindsOf? =>
    intro id scope hscope hnot
    have houtside := not_mem_chain_ofUnit hnot
    have hplaced := hscopeOf id
    rw [hscope] at hplaced
    obtain ⟨placement, hplacement, rfl⟩ := Option.map_eq_some_iff.mp hscope
    obtain ⟨placement', hplacement', -⟩ := Option.map_eq_some_iff.mp hplaced
    have hkinds := hconceals.own.kinds id fun hinside =>
      houtside ((hdivided.placed id placement hplacement).mpr hinside)
    rw [Analysis.kindsOf?, Analysis.kindsOf?, hplacement, hplacement', progress_analyse,
      progress_analyse]
    exact congrArg some hkinds

end Interiors

/-- Masked scopes are isolated.

Two units may differ in the literals and the enforced kinds that are inside of a frame, a template
or an instantiation.  Analysis finds out the same about every name that belongs to a scope outside,
and proves the same of every node that is evaluated outside. -/
theorem interior_isolated {first second construct : Expr} (hdistinct : first.Distinct)
    (hconstruct : construct ∈ first.nodes) (hmasks : construct.Masks)
    (hsame : first.blanked construct.id false = second.blanked construct.id false) (file : String)
    (options : Options) :
    ∃ inner, (analyse first file options).opened? construct.id = some inner ∧
      (analyse second file options).opened? construct.id = some inner ∧
        SameOutside inner (analyse first file options) (analyse second file options) := by
  obtain ⟨inner, hdivided⟩ :=
    Survey.divided_ofUnit hdistinct hconstruct hmasks file options.topLevel
  have hechoes := Survey.echoes_ofUnit construct.id hsame file options.topLevel
  have hopened : (analyse second file options).opened? construct.id = some inner := by
    rw [Analysis.opened?, layout_analyse, hechoes.opened]
    exact hdivided.opened
  exact ⟨inner, hdivided.opened, hopened,
    sameOutside_of_conceals hdivided hechoes (conceals_ofUnit hdivided hdistinct hsame)⟩

/-- A frame with a template in which an attribute of the frame is required to be of given kinds. -/
def shielded (kinds : Kinds) : Expr :=
  let mark (id : Nat) : Mark := ⟨⟨id⟩, .nowhere⟩
  .frame (mark 0) [
    .of "x" (.enforce (mark 1) (.lookup (mark 2) ["given"]) ({.int} ∪ {.str})),
    .of "t" (.template (mark 3) [.of "y" (.enforce (mark 4) (.lookup (mark 5) ["x"]) kinds)])]

/-- Inside of the template the attribute is of different kinds, and outside it is of the same. -/
theorem interior_isolated_shielded :
    let integer := analyse (shielded {.int}) "unit" .default
    let text := analyse (shielded {.str}) "unit" .default
    (shielded {.int}).Distinct ∧
      (shielded {.int}).blanked ⟨3⟩ false = (shielded {.str}).blanked ⟨3⟩ false ∧
        integer.kindsOf? ⟨5⟩ = some {.int} ∧ text.kindsOf? ⟨5⟩ = some {.str} ∧
          integer.opened? ⟨3⟩ = some ⟨2⟩ ∧ SameOutside ⟨2⟩ integer text := by
  have hdistinct : (shielded {.int}).Distinct := by decide
  have hsame : (shielded {.int}).blanked ⟨3⟩ false = (shielded {.str}).blanked ⟨3⟩ false := rfl
  have hopened : (analyse (shielded {.int}) "unit" .default).opened? ⟨3⟩ = some ⟨2⟩ := by
    decide +kernel
  have htemplate : .template ⟨⟨3⟩, .nowhere⟩ [.of "y" (.enforce ⟨⟨4⟩, .nowhere⟩
      (.lookup ⟨⟨5⟩, .nowhere⟩ ["x"]) {.int})] ∈ (shielded {.int}).nodes := by
    simp [shielded, Expr.nodes, Expr.nodesOfAttributes, Attribute.of]
  obtain ⟨inner, hinner, -, houtside⟩ :=
    interior_isolated hdistinct htemplate trivial hsame "unit" .default
  obtain rfl := Option.some.inj (hopened.symm.trans hinner)
  exact ⟨hdistinct, hsame, by decide +kernel, by decide +kernel, hopened, houtside⟩

end Analysis

end FrameLang
