import FrameLang.Proofs.Analysis.Exploration
import FrameLang.Proofs.Analysis.Survey

/-!
# Evaluation explores nodes

The evaluation of a node explores it: afterwards the node is handled, and if it was
handled before, no longer names are made (`Evaluation.evaluate_explores`).  So once
the analysis of a unit is finished, whatever a lookup means is a name of the scope
that the lookup is evaluated in, or the lookup has gone wrong
(`Evaluation.finished_explored`).

## Strategy

The induction is on the depth.  Nodes under evaluation are distinct nodes of the
layout, so there are never more of them than the layout has, and the depth is never
used up.
-/

namespace FrameLang

namespace Evaluation

open ScopeM

section Rules

variable {layout : Layout} {active searching : List NodeId} {session : Session Progress}

/-! ## Searching -/

theorem Explored.search (h : Explored layout active searching session) {node : NodeId}
    (hnone : session.defs.resolved.find? node = none) :
    Explored layout active (node :: searching) session := by
  refine { h with closed := fun id placement hleft hid => ?_, unresolved := ?_ }
  · exact { h.closed id placement hleft hid with
      pending := fun path hway hnone =>
        List.mem_cons_of_mem _ ((h.closed id placement hleft hid).pending path hway hnone) }
  · intro other hother
    rcases List.mem_cons.mp hother with rfl | hmem
    · exact hnone
    · exact h.unresolved other hmem

/-- The search for a name has come to its end. -/
theorem resolving_explored {node : NodeId} {name : NameId}
    (h : Explored layout active (node :: searching) session) (hnotmem : node ∉ searching)
    (hname : name.index < session.tree.names.size)
    (howned : ∀ placement, layout.nodes.find? node = some placement →
      (session.tree.isJunk name = true ∧ 0 < session.reporter.report.totalErrors) ∨
        session.tree.Owned placement.scope name)
    (htold : ∀ placement path, layout.nodes.find? node = some placement →
      placement.expr.way = .lookup path →
        Told session placement.scope path placement.expr.span name)
    (hbacked : session.Left node → Backed layout active session name) :
    Explored layout active searching (resolving session node name) ∧
      Advances session (resolving session node name) := by
  have hevolves := resolving_evolves h.formed node name
  have hnone := h.unresolved node List.mem_cons_self
  have hfind : ∀ other, (resolving session node name).defs.resolved.find? other =
      if node = other then some name else session.defs.resolved.find? other := fun other =>
    Progress.find?_resolve ..
  have hleft : ∀ other, (resolving session node name).Left other → session.Left other := by
    rintro other ⟨proven, hmem⟩
    rcases List.mem_cons.mp hmem with heq | hmem
    · cases heq
    · exact ⟨proven, hmem⟩
  have hadvances : Advances session (resolving session node name) := by
    refine ⟨hevolves, .refl _, fun other meaning hother => ?_⟩
    rw [hfind, if_neg]
    · exact hother
    · rintro rfl
      cases hnone.symm.trans hother
  -- a lookup means what it meant before, but for the one whose search has ended
  refine ⟨{ h with
    closed := fun id placement hid hplacement => ?closed
    parents := fun id component child hchild => ?parents
    unresolved := fun other hother => ?unresolved
    known := fun other meaning hmeaning => ?known
    owned := fun other meaning placement hmeaning hplacement => ?owned
    told := fun other meaning placement path hmeaning hplacement hway => ?told }, hadvances⟩
  case closed =>
    have hclosed := h.closed id placement (hleft id hid) hplacement
    have hexpr := (h.placed id placement hplacement).1
    refine ⟨fun heir hheir => (hclosed.heirs heir hheir).evolves hevolves, ?_, ?_⟩
    · intro path meaning hway hmeaning
      rw [hfind] at hmeaning
      split at hmeaning
      · next heq =>
        cases hmeaning
        exact (hbacked (heq ▸ hexpr ▸ hleft id hid)).evolves h.formed hevolves hname
      · exact (hclosed.meant path meaning hway hmeaning).evolves h.formed hevolves
          (h.known _ _ hmeaning)
    · intro path hway hunresolved
      rw [hfind] at hunresolved
      split at hunresolved
      · cases hunresolved
      · next hne =>
        rcases List.mem_cons.mp (hclosed.pending path hway hunresolved) with heq | hmem
        · exact absurd heq.symm hne
        · exact hmem
  case parents =>
    obtain ⟨hparent, hundefined⟩ := h.parents id component child hchild
    exact ⟨hparent.evolves h.formed hevolves (ScopeTree.lt_size_of_child? hchild), hundefined⟩
  case unresolved =>
    rw [hfind, if_neg]
    · exact h.unresolved other (List.mem_cons_of_mem _ hother)
    · rintro rfl
      exact hnotmem hother
  case known =>
    rw [hfind] at hmeaning
    split at hmeaning
    · cases hmeaning
      exact hname
    · exact h.known other meaning hmeaning
  case owned =>
    rw [hfind] at hmeaning
    split at hmeaning
    · next heq =>
      cases hmeaning
      exact howned placement (heq ▸ hplacement)
    · exact h.owned other meaning placement hmeaning hplacement
  case told =>
    have hscope := (h.placed other placement hplacement).2
    rw [hfind] at hmeaning
    split at hmeaning
    · next heq =>
      cases hmeaning
      exact (htold placement path (heq ▸ hplacement) hway).advances hadvances hscope hname
    · exact (h.told other meaning placement path hmeaning hplacement hway).advances hadvances
        hscope (h.known other meaning hmeaning)

/-- What comes of a search: the name that a lookup means. -/
theorem search_explores {during : Definer Progress} (hsound : during.Sound) (expr : Expr)
    (hexplorer : Explorer layout active (expr.id :: searching) during) {scope : ScopeId}
    {path : List String} (h : Explored layout active searching session)
    (hplaced : layout.nodes.find? expr.id = some ⟨expr, scope⟩) (hway : expr.way = .lookup path)
    (hnone : session.defs.resolved.find? expr.id = none) (hnotmem : expr.id ∉ searching)
    {found : NameId × Session Progress}
    (hfound : (lookup during scope path expr.span).run
      (session.noting (.searching expr.id)) = found) :
    Explored layout active searching (resolving found.2 expr.id found.1) ∧
      Advances session (resolving found.2 expr.id found.1) ∧
      found.1.index < found.2.tree.names.size := by
  have hnoted := Plain.noting h.formed (.searching expr.id) (by simp)
  have hsearch := (h.plain hnoted).search (hnoted.resolved ▸ hnone)
  have hscope := (h.placed _ _ hplaced).2
  have hlooked := lookedUp_lookup hsound scope path expr.span hsearch.formed
  have hfinds := lookup_finds hsound hexplorer path expr.span hsearch hscope
    fun finding hfault => ⟨expr.id, ⟨expr, scope⟩, path, hplaced, hway, hfault⟩
  rw [hfound] at hlooked hfinds
  -- the lookup may have been met during the search, but only if the path has several components
  have hbacked : found.2.Left expr.id → Backed layout active found.2 found.1 := by
    intro hleft
    by_cases hrest : path.tail = []
    · have hbefore := hnoted.leavesNothing expr.id (hfinds.left hrest expr.id hleft)
      have hclosed := h.closed expr.id _ hbefore hplaced
      exact absurd (hclosed.pending path hway hnone) hnotmem
    · exact backed_of_definition?_eq_none (hfinds.longer hrest)
  have howned : ∀ placement, layout.nodes.find? expr.id = some placement →
      (found.2.tree.isJunk found.1 = true ∧ 0 < found.2.reporter.report.totalErrors) ∨
        found.2.tree.Owned placement.scope found.1 := by
    intro placement hplacement
    obtain rfl := Option.some.inj (hplaced.symm.trans hplacement)
    exact hfinds.owned.imp_left fun hjunk => ⟨hjunk, hlooked.reported hsearch.counts hjunk⟩
  have htold : ∀ placement other, layout.nodes.find? expr.id = some placement →
      placement.expr.way = .lookup other →
        Told found.2 placement.scope other placement.expr.span found.1 := by
    intro placement other hplacement hother
    obtain rfl := Option.some.inj (hplaced.symm.trans hplacement)
    obtain rfl := Way.lookup.inj (hway.symm.trans hother)
    exact hfinds.told
  obtain ⟨hexplored, hadvances⟩ := resolving_explored hfinds.explored hnotmem hlooked.lt_size
    howned htold hbacked
  exact ⟨hexplored, (hnoted.advances.trans hfinds.advances).trans hadvances, hlooked.lt_size⟩

/-! ## The rules -/

theorem Explores.trans {goal goal' : Session Progress → Prop}
    {first second third : Session Progress}
    (h : Explores layout active searching goal first second)
    (h' : Explores layout active searching goal' second third)
    (hgoal : goal second → goal third) (hgoal' : goal' first → goal' second) :
    Explores layout active searching (fun session => goal session ∧ goal' session) first third :=
  ⟨h'.explored, h.advances.trans h'.advances, ⟨hgoal h.reached, h'.reached⟩,
    fun hboth id component => (h'.quiet (hgoal' hboth.2) id component).trans
      (h.quiet hboth.1 id component)⟩

/-- Two nodes evaluated one after the other. -/
theorem Explorer.both {definer : Definer Progress}
    (hdefiner : Explorer layout active searching definer)
    (h : Explored layout active searching session) (first second : NodeId)
    (demanded demanded' : Kinds) (unbox : Bool) :
    Explores layout active searching
      (fun session => Handled layout active session first ∧ Handled layout active session second)
      session ((definer second demanded' unbox).run
        ((definer first demanded unbox).run session).2).2 := by
  have hfirst := hdefiner first demanded unbox session h
  have hsecond := hdefiner second demanded' unbox _ hfirst.explored
  exact hfirst.trans hsecond (fun hhandled => hhandled.evolves hsecond.advances.evolves)
    (fun hhandled => hhandled.evolves hfirst.advances.evolves)

theorem closed_of_heirs {expr : Expr} (hway : ∀ path, expr.way ≠ .lookup path)
    (hheirs : ∀ heir ∈ expr.way.heirs, Handled layout active session heir) :
    Closed layout active searching session expr :=
  ⟨hheirs, fun path _ heq => absurd heq (hway path), fun path heq => absurd heq (hway path)⟩

/-- The rule of a lookup: its name is searched, if need be, and the demand is made on the name. -/
theorem lookup_explores {again during : Definer Progress}
    (hagain : Explorer layout active searching again) (hsound : during.Sound) {expr : Expr}
    (hduring : Explorer layout active (expr.id :: searching) during) {scope : ScopeId}
    {path : List String} (h : Explored layout active searching session)
    (hplaced : layout.nodes.find? expr.id = some ⟨expr, scope⟩) (hway : expr.way = .lookup path)
    (demanded : Kinds) (unbox : Bool) :
    Explores layout active searching (fun session => Closed layout active searching session expr)
      session ((rule again during searching scope demanded unbox expr).run session).2 := by
  have hid : expr.mark.id = expr.id := rfl
  have hheirs : ∀ after, ∀ heir ∈ expr.way.heirs, Handled layout active after heir := by
    simp [hway, Way.heirs]
  -- once the name is known, the demand on it closes the lookup
  have hmeant : ∀ (middle after : Session Progress) (name : NameId), Advances middle after →
      middle.defs.resolved.find? expr.id = some name → Backed layout active after name →
        Closed layout active searching after expr := by
    intro middle after name hadvances hname hbacked
    have hstill := hadvances.resolved expr.id name hname
    refine ⟨hheirs after, fun other meaning _ hmeaning => ?_, fun other _ hnone => ?_⟩
    · exact Option.some.inj (hstill.symm.trans hmeaning) ▸ hbacked
    · cases hstill.symm.trans hnone
  rw [run_rule]
  simp only [hway]
  rw [run_resolve, hid]
  cases hfind : session.defs.resolved.find? expr.id with
  | some name =>
      have hensured := ensure_explores hagain name demanded unbox h (h.known _ _ hfind)
      refine hensured.congr (fun hclosed => hclosed.meant path name hway hfind) ?_
      exact hmeant session _ name hensured.advances hfind
  | none =>
      by_cases hmem : expr.id ∈ searching
      · simp only [if_pos hmem]
        refine .of_plain h (.refl h.formed) ⟨hheirs session, fun other name _ hname => ?_, ?_⟩
        · cases hfind.symm.trans hname
        · exact fun _ _ _ => hmem
      · simp only [if_neg hmem]
        generalize hfound : (lookup during scope path expr.mark.span).run
          (session.noting (.searching expr.id)) = found
        obtain ⟨hexplored, hadvances, hname⟩ := search_explores hsound expr hduring h hplaced hway
          hfind hmem hfound
        have hresolved : (resolving found.2 expr.id found.1).defs.resolved.find? expr.id =
            some found.1 := (Progress.find?_resolve ..).trans (if_pos rfl)
        have hensured := ensure_explores hagain found.1 demanded unbox hexplored hname
        refine ⟨hensured.explored, hadvances.trans hensured.advances, ?_, fun hclosed => ?_⟩
        · exact hmeant _ _ _ hensured.advances hresolved hensured.reached
        · exact absurd (hclosed.pending path hway hfind) hmem

theorem rule_explores {again during : Definer Progress}
    (hagain : Explorer layout active searching again) (hsound : during.Sound) {expr : Expr}
    (hduring : Explorer layout active (expr.id :: searching) during) {scope : ScopeId}
    (h : Explored layout active searching session)
    (hplaced : layout.nodes.find? expr.id = some ⟨expr, scope⟩) (demanded : Kinds) (unbox : Bool) :
    Explores layout active searching (fun session => Closed layout active searching session expr)
      session ((rule again during searching scope demanded unbox expr).run session).2 := by
  cases hway : expr.way with
  | lookup path => exact lookup_explores hagain hsound hduring h hplaced hway demanded unbox
  | leaf natural =>
      simp only [run_rule, hway]
      refine .of_plain h (.leaf h.formed expr.span natural demanded) ?_
      exact closed_of_heirs (by simp [hway]) (by simp [hway, Way.heirs])
  | coalesce primary fallback =>
      simp only [run_rule, hway]
      have hboth := hagain.both h fallback primary demanded (demanded ∪ {Kind.unit}) unbox
      refine hboth.congr ?_ ?_
      · exact fun hclosed => ⟨hclosed.heirs fallback (by simp [hway, Way.heirs]),
          hclosed.heirs primary (by simp [hway, Way.heirs])⟩
      · exact fun hreached => closed_of_heirs (by simp [hway]) (by simpa [hway, Way.heirs])
  | choose consequent alternative =>
      simp only [run_rule, hway]
      have hboth := hagain.both h consequent alternative demanded demanded unbox
      refine hboth.congr ?_ ?_
      · exact fun hclosed => ⟨hclosed.heirs consequent (by simp [hway, Way.heirs]),
          hclosed.heirs alternative (by simp [hway, Way.heirs])⟩
      · exact fun hreached => closed_of_heirs (by simp [hway]) (by simpa [hway, Way.heirs])
  | arithmetic left right =>
      simp only [run_rule, hway]
      have hboth := hagain.both h left right .number .number true
      generalize arithmeticKinds _ _ = natural
      have hnatural := Plain.ensureIntrinsic hboth.explored.formed scope expr.id natural true
        expr.span
      have hplain := hnatural.trans
        (.ensureIntrinsic hnatural.evolves.formed scope expr.id demanded unbox expr.span)
      refine (hboth.then_plain hplain ?_).congr ?_ ?_
      · exact fun hreached => ⟨hreached.1.evolves hplain.evolves, hreached.2.evolves hplain.evolves⟩
      · exact fun hclosed => ⟨hclosed.heirs left (by simp [hway, Way.heirs]),
          hclosed.heirs right (by simp [hway, Way.heirs])⟩
      · exact fun hreached => closed_of_heirs (by simp [hway]) (by simpa [hway, Way.heirs])
  | enforce value kinds =>
      simp only [run_rule, hway]
      have hvalue := hagain value kinds true session h
      have hplain := Plain.leaf hvalue.explored.formed expr.span kinds demanded
      refine (hvalue.then_plain hplain fun hreached => hreached.evolves hplain.evolves).congr ?_ ?_
      · exact fun hclosed => hclosed.heirs value (by simp [hway, Way.heirs])
      · exact fun hreached => closed_of_heirs (by simp [hway]) (by simpa [hway, Way.heirs])
  | body node =>
      simp only [run_rule, hway]
      refine (hagain node demanded unbox session h).congr ?_ ?_
      · exact fun hclosed => hclosed.heirs node (by simp [hway, Way.heirs])
      · exact fun hreached => closed_of_heirs (by simp [hway]) (by simpa [hway, Way.heirs])

end Rules

/-! ## Evaluation -/

theorem length_le_size {layout : Layout} {active : List NodeId} (hnodup : active.Nodup)
    (hplaced : ∀ node ∈ active, (layout.nodes.find? node).isSome) :
    active.length ≤ layout.nodes.size := by
  have hsubset : active ⊆ layout.nodes.keys := fun node hnode =>
    (Table.mem_keys_iff layout.nodes node).mpr (hplaced node hnode)
  have hlength := hnodup.length_le_of_subset hsubset
  rwa [Table.keys, List.length_map] at hlength

/-- The evaluation of a node has come to its end, and it was closed before that. -/
theorem leaving_explored {layout : Layout} {active searching : List NodeId}
    {session : Session Progress} {expr : Expr} {scope : ScopeId}
    (hplaced : layout.nodes.find? expr.id = some ⟨expr, scope⟩)
    (h : Explored layout (expr.id :: active) searching session)
    (hclosed : Closed layout (expr.id :: active) searching session expr) (proven : Kinds) :
    Explored layout active searching (leaving session expr.id proven) ∧
      Advances session (leaving session expr.id proven) ∧
      Handled layout active (leaving session expr.id proven) expr.id := by
  have hevolves := leaving_evolves h.formed expr.id proven
  have hleft : (leaving session expr.id proven).Left expr.id := ⟨proven, List.mem_cons_self⟩
  have hcases : ∀ node, (leaving session expr.id proven).Left node →
      node = expr.id ∨ session.Left node := by
    rintro node ⟨kinds, hmem⟩
    rcases List.mem_cons.mp hmem with heq | hmem
    · cases heq
      exact .inl rfl
    · exact .inr ⟨kinds, hmem⟩
  -- what was under evaluation has been left
  have hhandled : ∀ node, Handled layout (expr.id :: active) session node →
      Handled layout active (leaving session expr.id proven) node := by
    intro node hnode
    rcases hnode with hbefore | hactive | hnone
    · exact .inl (left_of_evolves hevolves hbefore)
    · rcases List.mem_cons.mp hactive with rfl | hactive
      · exact .inl hleft
      · exact .inr (.inl hactive)
    · exact .inr (.inr hnone)
  have hbacked : ∀ name, Backed layout (expr.id :: active) session name →
      Backed layout active (leaving session expr.id proven) name :=
    fun name hname node hnode => hhandled node (hname node hnode)
  have htransfer : ∀ other, Closed layout (expr.id :: active) searching session other →
      Closed layout active searching (leaving session expr.id proven) other :=
    fun other hother => ⟨fun heir hheir => hhandled heir (hother.heirs heir hheir),
      fun path name hway hname => hbacked name (hother.meant path name hway hname), hother.pending⟩
  have hadvances : Advances session (leaving session expr.id proven) :=
    ⟨hevolves, .refl _, fun _ _ hname => hname⟩
  refine ⟨⟨h.formed, h.placed, ?_, ?_, h.unresolved, h.known, h.owned, ?_, h.complaints, h.counts⟩,
    hadvances, .inl hleft⟩
  · intro id placement hid hplacement
    rcases hcases id hid with rfl | hid
    · obtain rfl := Option.some.inj (hplaced.symm.trans hplacement)
      exact htransfer expr hclosed
    · exact htransfer _ (h.closed id placement hid hplacement)
  · intro id component child hchild
    obtain ⟨hparent, hundefined⟩ := h.parents id component child hchild
    exact ⟨hbacked id hparent, hundefined⟩
  · intro node name placement path hname hplacement hway
    exact (h.told node name placement path hname hplacement hway).advances hadvances
      (h.placed node placement hplacement).2 (h.known node name hname)

theorem evaluate_explores (layout : Layout) (depth : Nat) (active searching : List NodeId)
    (hnodup : active.Nodup) (hactive : ∀ node ∈ active, (layout.nodes.find? node).isSome)
    (hdepth : layout.nodes.size < depth + active.length) :
    Explorer layout active searching (evaluate layout depth active searching) := by
  induction depth generalizing active searching with
  | zero =>
      have hlength := length_le_size hnodup hactive
      omega
  | succ depth ih =>
      intro id demanded unbox session h
      rw [run_evaluate_succ]
      cases hplaced : layout.nodes.find? id with
      | none => exact .of_plain h (.refl h.formed) (.inr (.inr hplaced))
      | some placement =>
          obtain ⟨rfl, -⟩ := h.placed id placement hplaced
          dsimp only
          by_cases hmem : placement.expr.id ∈ active
          · rw [if_pos hmem]
            exact .of_plain h (.noting h.formed _ (by simp)) (.inr (.inl hmem))
          · rw [if_neg hmem]
            have hnodup' : (placement.expr.id :: active).Nodup := List.nodup_cons.mpr ⟨hmem, hnodup⟩
            have hactive' : ∀ node ∈ placement.expr.id :: active,
                (layout.nodes.find? node).isSome := by
              intro node hnode
              rcases List.mem_cons.mp hnode with rfl | hnode
              · rw [hplaced]
                rfl
              · exact hactive node hnode
            have hdepth' : layout.nodes.size <
                depth + (placement.expr.id :: active).length := by
              rw [List.length_cons]
              omega
            have hentered := Plain.noting h.formed (.entered placement.expr.id demanded) (by simp)
            have hinside := (h.plain hentered).mono (List.subset_cons_self placement.expr.id active)
            have hruled := rule_explores (ih (placement.expr.id :: active) searching hnodup' hactive'
              hdepth') (evaluate_sound layout depth _ (placement.expr.id :: searching))
              (ih (placement.expr.id :: active) (placement.expr.id :: searching) hnodup' hactive'
                hdepth') hinside hplaced demanded unbox
            generalize (rule (evaluate layout depth (placement.expr.id :: active) searching)
              (evaluate layout depth (placement.expr.id :: active) (placement.expr.id :: searching))
              searching placement.scope demanded unbox placement.expr).run
                (session.noting (.entered placement.expr.id demanded)) = proven at hruled ⊢
            obtain ⟨hexplored, hadvances, hhandled⟩ :=
              leaving_explored hplaced hruled.explored hruled.reached proven.1
            refine ⟨hexplored, (hentered.advances.trans hruled.advances).trans hadvances, hhandled,
              fun hbefore => ?_⟩
            -- a node that was handled before had been left
            have hleft : session.Left placement.expr.id := by
              rcases hbefore with hleft | hactive | hnone
              · exact hleft
              · exact absurd hactive hmem
              · cases hplaced.symm.trans hnone
            have hclosed := h.closed _ placement hleft hplaced
            have hstill := (hclosed.evolves h hentered.evolves hentered.resolved).mono
              (List.subset_cons_self placement.expr.id active)
            exact fun other component => (hruled.quiet hstill other component).trans
              (hentered.quiet other component)

/-! ## The steps of the analysis -/

section Steps

variable {layout : Layout} {session : Session Progress}

theorem definer_explores (layout : Layout) : Explorer layout [] [] (definer layout) :=
  evaluate_explores layout (depthOf layout) [] [] List.nodup_nil (by simp) (by simp [depthOf])

theorem classify_explores (h : Explored layout [] [] session) (id : NodeId) :
    Explored layout [] [] ((classify layout id).run session).2 ∧
      Advances session ((classify layout id).run session).2 := by
  have hrefl := (Plain.refl h.formed).advances
  unfold classify
  split
  · next mark path scope hplaced =>
    obtain ⟨rfl, -⟩ := h.placed id _ hplaced
    have hexplorer := evaluate_explores layout (depthOf layout) [] [mark.id] List.nodup_nil (by simp)
      (by simp [depthOf])
    rw [run_bind, run_pure, run_resolve]
    cases hfind : session.defs.resolved.find? mark.id with
    | some name => exact ⟨h, hrefl⟩
    | none =>
        simp only [List.not_mem_nil, if_false]
        obtain ⟨hexplored, hadvances, -⟩ := search_explores
          (evaluate_sound layout (depthOf layout) [] [mark.id]) (.lookup mark path) hexplorer h
          hplaced rfl hfind (by simp) rfl
        exact ⟨hexplored, hadvances⟩
  · exact ⟨h, hrefl⟩

/-- A lookup that has been classified means a name. -/
theorem classify_resolves {mark : Mark} {path : List String} {scope : ScopeId}
    (hplaced : layout.nodes.find? mark.id = some ⟨.lookup mark path, scope⟩) :
    ∃ name, ((classify layout mark.id).run session).2.defs.resolved.find? mark.id = some name := by
  unfold classify
  rw [hplaced]
  dsimp only
  rw [run_bind, run_pure, run_resolve]
  cases hfind : session.defs.resolved.find? mark.id with
  | some name => exact ⟨name, hfind⟩
  | none =>
      simp only [List.not_mem_nil, if_false]
      exact ⟨_, (Progress.find?_resolve ..).trans (if_pos rfl)⟩

theorem answer_explores (h : Explored layout [] [] session)
    (hbound : ∀ value name, layout.bindings.find? value = some name →
      name.index < session.tree.names.size) (ask : Ask) :
    Explored layout [] [] ((answer layout ask).run session).2 ∧
      Advances session ((answer layout ask).run session).2 := by
  have hdefiner := definer_explores layout
  cases ask with
  | node id kinds =>
      have hdemanded := hdefiner id kinds false session h
      exact ⟨hdemanded.explored, hdemanded.advances⟩
  | definition value =>
      unfold answer
      dsimp only
      split
      · next name hname =>
        have hensured := ensure_explores hdefiner name .any false h (hbound value name hname)
        exact ⟨hensured.explored, hensured.advances⟩
      · have hdemanded := hdefiner value .any false session h
        exact ⟨hdemanded.explored, hdemanded.advances⟩

/-- Steps made one after the other explore what each of them explores. -/
theorem forM_explores {α : Type} {step : α → ScopeM Progress PUnit} (items : List α)
    (h : Explored layout [] [] session)
    (hstep : ∀ item ∈ items, ∀ after, Advances session after → Explored layout [] [] after →
      Explored layout [] [] ((step item).run after).2 ∧
        Advances after ((step item).run after).2) :
    Explored layout [] [] ((items.forM step).run session).2 ∧
      Advances session ((items.forM step).run session).2 := by
  refine forM_preserves (fun after => Explored layout [] [] after ∧ Advances session after) items
    (fun item hitem after hafter => ?_) ⟨h, (Plain.refl h.formed).advances⟩
  obtain ⟨hexplored, hadvances⟩ := hstep item hitem after hafter.2 hafter.1
  exact ⟨hexplored, hafter.2.trans hadvances⟩

theorem meet_explores (h : Explored layout [] [] session)
    (hbound : ∀ value name, layout.bindings.find? value = some name →
      name.index < session.tree.names.size) (demands : List Demand) :
    Explored layout [] [] ((meet layout demands).run session).2 ∧
      Advances session ((meet layout demands).run session).2 := by
  refine forM_explores demands h fun demand _ middle hmiddle hexplored => ?_
  refine forM_explores demand.asks hexplored fun ask _ after hafter hexplored' => ?_
  refine answer_explores hexplored' (fun value name hname => ?_) ask
  exact Nat.lt_of_lt_of_le (hbound value name hname)
    (hmiddle.trans hafter).evolves.grows.size_names

theorem checkMask_plain (h : session.tree.Formed) (id : NameId) :
    Plain session ((checkMask id).run session).2 := by
  unfold checkMask
  rw [run_bind, run_tree]
  dsimp only
  split
  · split
    · exact .refl h
    · exact .reporting h ((Diagnostic.error _ .conflictingName _ _).withConflict _ _
        |>.withSuggestion _) (unscopal_conflictingName rfl)
  · exact .refl h

theorem checkMasks_plain (h : session.tree.Formed) : Plain session (checkMasks.run session).2 :=
  forM_preserves (Plain session) session.tree.nameIds
    (fun id _ _ hplain => hplain.trans (checkMask_plain hplain.evolves.formed id)) (.refl h)

theorem settle_explores (h : Explored layout [] [] session)
    (hbound : ∀ value name, layout.bindings.find? value = some name →
      name.index < session.tree.names.size) (demands : List Demand) :
    Explored layout [] [] ((settle layout demands).run session).2 ∧
      Advances session ((settle layout demands).run session).2 := by
  obtain ⟨hexplored, hadvances⟩ := meet_explores h hbound demands
  have hchecked := checkMasks_plain hexplored.formed
  exact ⟨hexplored.plain hchecked, hadvances.trans hchecked.advances⟩

end Steps

/-! ## Whole units -/

/-- The session after some lookups have been classified, in a given order. -/
def classifiedIn (surveyed : Session Layout) (order : List NodeId) : Session Progress :=
  ((order.forM (classify surveyed.defs)).run (start surveyed)).2

/-- The session at the end, if lookups have been classified in a given order. -/
def finishedIn (surveyed : Session Layout) (order : List NodeId) : Session Progress :=
  let session := classifiedIn surveyed order
  ((settle surveyed.defs (byPriority session.tree surveyed.defs.demands)).run session).2

theorem classified_eq (surveyed : Session Layout) :
    classified surveyed = classifiedIn surveyed surveyed.defs.lookups := rfl

theorem finished_eq (surveyed : Session Layout) :
    finished surveyed = finishedIn surveyed surveyed.defs.lookups := rfl

section Units

variable (unit : Expr) (file : String) (topLevel : Bool)

theorem start_explored : Explored (Survey.ofUnit unit file topLevel).defs [] []
    (start (Survey.ofUnit unit file topLevel)) := by
  have hkept := Survey.kept_ofUnit unit file topLevel
  have hnothing : ∀ node, ¬ (start (Survey.ofUnit unit file topLevel)).Left node := by
    rintro node ⟨proven, hmem⟩
    have htrace : (start (Survey.ofUnit unit file topLevel)).trace = [] := hkept.untraced
    rw [htrace] at hmem
    cases hmem
  exact {
    formed := hkept.formed
    placed := fun id placement hid =>
      have ⟨_, hexpr, hscope, _⟩ := Survey.found_ofUnit hid
      ⟨hexpr, hscope⟩
    closed := fun id _ hleft => absurd hleft (hnothing id)
    parents := fun id component _ hchild => by
      cases (hkept.childless id component).symm.trans hchild
    unresolved := by simp
    known := fun _ _ hname => by cases hname
    owned := fun _ _ _ hname => by cases hname
    told := fun _ _ _ _ hname => by cases hname
    complaints := fun finding hseen hscopal => absurd hscopal (hkept.unscopal finding hseen)
    counts := hkept.counts }

theorem lt_size_of_binding {value : NodeId} {name : NameId}
    (h : (Survey.ofUnit unit file topLevel).defs.bindings.find? value = some name) :
    name.index < (Survey.ofUnit unit file topLevel).tree.names.size := by
  obtain ⟨kinds, horigin⟩ := (Survey.kept_ofUnit unit file topLevel).bound value name h
  refine ScopeTree.lt_size_of_not_junk ?_
  rw [ScopeTree.isJunk, NameRecord.isJunk_eq_false, horigin]
  simp

theorem classifiedIn_explored (order : List NodeId) :
    Explored (Survey.ofUnit unit file topLevel).defs [] []
      (classifiedIn (Survey.ofUnit unit file topLevel) order) ∧
    Advances (start (Survey.ofUnit unit file topLevel))
      (classifiedIn (Survey.ofUnit unit file topLevel) order) :=
  forM_explores order (start_explored unit file topLevel)
    fun id _ _ _ hexplored => classify_explores hexplored id

theorem classified_explored :
    Explored (Survey.ofUnit unit file topLevel).defs [] []
      (classified (Survey.ofUnit unit file topLevel)) ∧
    Advances (start (Survey.ofUnit unit file topLevel))
      (classified (Survey.ofUnit unit file topLevel)) := by
  rw [classified_eq]
  exact classifiedIn_explored unit file topLevel _

variable {unit file topLevel} in
/-- A lookup that has its turn means a name from then on. -/
theorem classifiedIn_resolves {mark : Mark} {path : List String} {scope : ScopeId}
    (hplaced : (Survey.ofUnit unit file topLevel).defs.nodes.find? mark.id =
      some ⟨.lookup mark path, scope⟩) {order : List NodeId} (hmem : mark.id ∈ order) :
    ∃ name, (classifiedIn (Survey.ofUnit unit file topLevel) order).defs.resolved.find? mark.id =
      some name := by
  have hall : ∀ (ids : List NodeId) (session : Session Progress),
      Explored (Survey.ofUnit unit file topLevel).defs [] [] session → mark.id ∈ ids →
        ∃ name, ((ids.forM (classify (Survey.ofUnit unit file topLevel).defs)).run
          session).2.defs.resolved.find? mark.id = some name := by
    intro ids
    induction ids with
    | nil => simp
    | cons id rest ih =>
        intro session h hmem
        obtain ⟨hexplored, -⟩ := classify_explores h id
        rw [run_forM_cons]
        rcases List.mem_cons.mp hmem with rfl | hmem
        · have hresolved : ∃ name, ((classify _ mark.id).run session).2.defs.resolved.find? mark.id =
              some name := classify_resolves hplaced
          obtain ⟨name, hname⟩ := hresolved
          obtain ⟨-, hadvances⟩ := forM_explores rest hexplored
            fun other _ _ _ hother => classify_explores hother other
          exact ⟨name, hadvances.resolved _ name hname⟩
        · exact ih _ hexplored hmem
  exact hall order _ (start_explored unit file topLevel) hmem

variable {unit file topLevel} in
/-- Every lookup of a unit has been classified. -/
theorem classified_resolves {mark : Mark} {path : List String} {scope : ScopeId}
    (hplaced : (Survey.ofUnit unit file topLevel).defs.nodes.find? mark.id =
      some ⟨.lookup mark path, scope⟩) :
    ∃ name, (classified (Survey.ofUnit unit file topLevel)).defs.resolved.find? mark.id =
      some name := by
  obtain ⟨-, -, -, hlookup⟩ := Survey.found_ofUnit hplaced
  rw [classified_eq]
  exact classifiedIn_resolves hplaced (hlookup trivial)

/-- The demands that are made once every lookup has been classified. -/
theorem settledIn_explored (order : List NodeId) :
    Explored (Survey.ofUnit unit file topLevel).defs [] []
      (finishedIn (Survey.ofUnit unit file topLevel) order) ∧
    Advances (classifiedIn (Survey.ofUnit unit file topLevel) order)
      (finishedIn (Survey.ofUnit unit file topLevel) order) := by
  obtain ⟨hclassified, hadvances⟩ := classifiedIn_explored unit file topLevel order
  exact settle_explores hclassified
    (fun value name hname => Nat.lt_of_lt_of_le (lt_size_of_binding unit file topLevel hname)
      hadvances.evolves.grows.size_names)
    (byPriority (classifiedIn (Survey.ofUnit unit file topLevel) order).tree
      (Survey.ofUnit unit file topLevel).defs.demands)

/-- Once analysis is finished, everything it has met has been explored. -/
theorem finishedIn_explored (order : List NodeId) :
    Explored (Survey.ofUnit unit file topLevel).defs [] []
      (finishedIn (Survey.ofUnit unit file topLevel) order) ∧
    Advances (start (Survey.ofUnit unit file topLevel))
      (finishedIn (Survey.ofUnit unit file topLevel) order) := by
  obtain ⟨hfinished, hadvances⟩ := settledIn_explored unit file topLevel order
  exact ⟨hfinished, (classifiedIn_explored unit file topLevel order).2.trans hadvances⟩

theorem finished_explored :
    Explored (Survey.ofUnit unit file topLevel).defs [] []
      (finished (Survey.ofUnit unit file topLevel)) ∧
    Advances (start (Survey.ofUnit unit file topLevel))
      (finished (Survey.ofUnit unit file topLevel)) := by
  rw [finished_eq]
  exact finishedIn_explored unit file topLevel _

variable {unit file topLevel} in
/-- Every lookup that has had its turn means a name in the end. -/
theorem finishedIn_resolves {mark : Mark} {path : List String} {scope : ScopeId}
    (hplaced : (Survey.ofUnit unit file topLevel).defs.nodes.find? mark.id =
      some ⟨.lookup mark path, scope⟩) {order : List NodeId} (hmem : mark.id ∈ order) :
    ∃ name, (finishedIn (Survey.ofUnit unit file topLevel) order).defs.resolved.find? mark.id =
      some name := by
  obtain ⟨name, hname⟩ := classifiedIn_resolves hplaced hmem
  exact ⟨name, (settledIn_explored unit file topLevel order).2.resolved _ name hname⟩

variable {unit file topLevel} in
/-- Every lookup of a unit means a name in the end. -/
theorem finished_resolves {mark : Mark} {path : List String} {scope : ScopeId}
    (hplaced : (Survey.ofUnit unit file topLevel).defs.nodes.find? mark.id =
      some ⟨.lookup mark path, scope⟩) :
    ∃ name, (finished (Survey.ofUnit unit file topLevel)).defs.resolved.find? mark.id =
      some name := by
  obtain ⟨-, -, -, hlookup⟩ := Survey.found_ofUnit hplaced
  rw [finished_eq]
  exact finishedIn_resolves hplaced (hlookup trivial)

end Units

end Evaluation

/-! ## The outcome -/

namespace Analysis

section Units

variable (unit : Expr) (file : String) (options : Options)

theorem tree_analyse : (analyse unit file options).tree =
    (Evaluation.finished (Survey.ofUnit unit file options.topLevel)).tree := by
  unfold analyse
  dsimp only

theorem report_analyse : (analyse unit file options).report =
    (Evaluation.finished (Survey.ofUnit unit file options.topLevel)).reporter.report := by
  unfold analyse
  dsimp only

theorem progress_analyse : (analyse unit file options).progress =
    (Evaluation.finished (Survey.ofUnit unit file options.topLevel)).defs := by
  unfold analyse
  dsimp only

theorem trace_analyse : (analyse unit file options).trace =
    (Evaluation.finished (Survey.ofUnit unit file options.topLevel)).trace := by
  unfold analyse
  dsimp only

theorem layout_analyse : (analyse unit file options).layout =
    (Survey.ofUnit unit file options.topLevel).defs := rfl

theorem nameOf?_analyse (node : NodeId) : (analyse unit file options).nameOf? node =
    (Evaluation.finished (Survey.ofUnit unit file options.topLevel)).defs.resolved.find? node := by
  unfold Analysis.nameOf? analyse
  dsimp only

theorem formed_analyse : (analyse unit file options).tree.Formed := by
  rw [tree_analyse]
  exact (Evaluation.finished_explored unit file options.topLevel).1.formed

variable {unit file options}

/-- Every lookup means a name of the scope that it is made in, unless it went wrong. -/
theorem owned_analyse {mark : Mark} {path : List String} {scope : ScopeId}
    (h : (analyse unit file options).layout.nodes.find? mark.id = some ⟨.lookup mark path, scope⟩) :
    ∃ name, (analyse unit file options).nameOf? mark.id = some name ∧
      (((analyse unit file options).tree.isJunk name = true ∧
          0 < (analyse unit file options).report.totalErrors) ∨
        name ∈ (analyse unit file options).tree.allNames scope) := by
  rw [layout_analyse] at h
  obtain ⟨hexplored, -⟩ := Evaluation.finished_explored unit file options.topLevel
  obtain ⟨name, hname⟩ := Evaluation.finished_resolves h
  refine ⟨name, (nameOf?_analyse ..).trans hname, ?_⟩
  rw [tree_analyse, report_analyse, ScopeTree.mem_allNames hexplored.formed]
  exact hexplored.owned mark.id name _ hname h

end Units

end Analysis

end FrameLang
