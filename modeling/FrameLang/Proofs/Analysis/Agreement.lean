import FrameLang.Proofs.Analysis.Bonds
import FrameLang.Proofs.Analysis.Requirements
import FrameLang.Proofs.Scope.Demands

/-!
# Bound names agree with their definitions

If nothing is wrong with a unit, then in the end a bound name has the kinds that its definition is
proven to have (`Analysis.possible_eq_kindsOf`), under three conditions.

* The definition is calm: it is not met again while it is evaluated.  Otherwise the answer comes
  before the proof.
* It is definite: it has some kind whatever is demanded of it, or nothing but what it converts
  to.  A fallback that only converts may leave nothing in common between two answers.
* If it is an arithmetic operation, it is evaluated in the scope of the name.  An operation
  requests itself, and where it amends an attribute it does so after it has been requested on
  behalf of the name; nobody tells the name what it proves then
  (`Analysis.not_possible_eq_kindsOf`).

## Strategy

As long as the definition is demanded only by way of the name, the two agree, since each answer is
part of the demand and has something in common with what is proven (`Sensible.meets`).  A definition
that requests itself may get ahead of the name (`Loose.overtake`).  But then its answers do not go
beyond what is proven of it, and so the next demand by way of the name leaves just the answer, in
both places (`Loose.tighten`).  Hence all that matters is which of the requests comes last
(`requests_split`).

A conversion requests itself as well, but what is proven of it does not change any more once it has
been demanded (`Tight.overtake`).
-/

namespace FrameLang

/-- What is left of known kinds by a demand and by an answer to it, if there is anything in common,
is what is left by the answer. -/
theorem Kinds.narrow_narrow {known demanded answer : Kinds} (h : answer ⊆ demanded)
    (hmeets : known.meets answer = true) :
    (known.narrow demanded).narrow answer = known.narrow answer := by
  have hsubset : known.narrow answer ⊆ answer := by
    rw [narrow, if_pos hmeets]
    exact inter_subset_right known answer
  obtain ⟨kind, hknown, -⟩ := meets_iff.mp hmeets
  have hne := (narrows_narrow known answer).nonempty (ne_empty_iff.mpr ⟨kind, hknown⟩)
  rw [(narrows_narrow known answer).narrow_comm (subset_trans hsubset h) hsubset hne]
  exact narrow_eq_self (.inl (subset_trans hsubset h))

namespace Evaluation

/-! ## Definitions -/

section Definitions

variable (layout : Layout) (session : Session Progress) (node : NodeId)

/-- A node has some kind whatever is demanded of it, or it has only kinds that it converts to. -/
def Definite : Prop :=
  (∃ kind, Yields layout session node kind) ∨ Conversional layout session node

/-- What may be proven of a node in the course of an analysis.  As long as not everything is
possible, a node that only converts is proven to have nothing but what it converts to. -/
structure Sensible (proven : Kinds) : Prop where
  nonempty : proven ≠ ∅
  yields : ∀ kind, Yields layout session node kind → kind ∈ proven
  converts : Conversional layout session node →
    proven = .any ∨ ∀ kind ∈ proven, Converts layout session node kind

/-- No answer of a node exceeds what is proven of it. -/
def Capped (proven : Kinds) : Prop :=
  Operation layout node ∨
    (Conversional layout session node ∧ ∀ kind, Converts layout session node kind → kind ∈ proven)

/-- A name and its definition agree, or the definition is ahead of the name, and then the next
answer makes them agree. -/
def Loose (known proven : Kinds) : Prop :=
  Sensible layout session node proven ∧
    (known = proven ∨ (proven ⊆ known ∧ Capped layout session node proven))

/-- A name and its definition agree, after an answer. -/
structure Tight (known proven : Kinds) : Prop where
  sensible : Sensible layout session node proven
  eq : known = proven
  converts : Conversional layout session node →
    ∀ kind ∈ proven, Converts layout session node kind

end Definitions

/-! ## What an answer does -/

section Answering

variable {layout : Layout} {session : Session Progress} {node : NodeId}
  {known proven demanded answer : Kinds}

theorem Tight.loose (h : Tight layout session node known proven) :
    Loose layout session node known proven :=
  ⟨h.sensible, .inl h.eq⟩

theorem Answers.subset (h : Answers layout session node proven demanded answer)
    (hcapped : Capped layout session node proven) : answer ⊆ proven := by
  rcases hcapped with hoperation | ⟨hconversional, hconverts⟩
  · exact h.capped hoperation
  · exact Kinds.subset_iff.mpr fun kind hkind =>
      hconverts kind (h.honours.conversional hconversional kind hkind)

/-- A demand that has something in common with what is proven is answered with some of this. -/
theorem Sensible.meets (h : Sensible layout session node proven)
    (hdefinite : Definite layout session node)
    (hanswer : Honours layout session node demanded answer)
    (hmeets : proven.meets demanded = true) : proven.meets answer = true := by
  rcases hdefinite with ⟨kind, hyields⟩ | hconversional
  · exact Kinds.meets_iff.mpr ⟨kind, h.yields kind hyields, hanswer.yields kind hyields⟩
  · rcases h.converts hconversional with rfl | hall
    · obtain ⟨kind, hkind⟩ := Kinds.ne_empty_iff.mp hanswer.nonempty
      exact Kinds.meets_iff.mpr ⟨kind, Kinds.mem_any, hkind⟩
    · obtain ⟨kind, hproven, hdemanded⟩ := Kinds.meets_iff.mp hmeets
      exact Kinds.meets_iff.mpr
        ⟨kind, hproven, hanswer.converts kind hdemanded (hall kind hproven)⟩

/-- After an answer, a node that only converts is proven to have nothing but what it converts to. -/
theorem Sensible.converts_narrow (h : Sensible layout session node proven)
    (hanswer : Honours layout session node demanded answer)
    (hconversional : Conversional layout session node) :
    ∀ kind ∈ proven.narrow answer, Converts layout session node kind := by
  rcases h.converts hconversional with rfl | hall
  · rw [Kinds.narrow_of_subset (Kinds.subset_iff.mpr fun _ _ => Kinds.mem_any) hanswer.nonempty]
    exact hanswer.conversional hconversional
  · exact fun kind hkind => hall kind (Kinds.mem_of_mem_narrow hkind)

theorem Sensible.narrow (h : Sensible layout session node proven)
    (hanswer : Honours layout session node demanded answer) :
    Sensible layout session node (proven.narrow answer) where
  nonempty := (Kinds.narrows_narrow proven answer).nonempty h.nonempty
  yields kind hkind := by
    have hproven := h.yields kind hkind
    have hanswered := hanswer.yields kind hkind
    rw [Kinds.narrow, if_pos (Kinds.meets_iff.mpr ⟨kind, hproven, hanswered⟩)]
    exact Kinds.mem_inter.mpr ⟨hproven, hanswered⟩
  converts hconversional := .inr (h.converts_narrow hanswer hconversional)

/-- A demand by way of the name makes the name and the definition agree. -/
theorem Loose.tighten (h : Loose layout session node known proven)
    (hdefinite : Definite layout session node)
    (hanswer : Answers layout session node proven demanded answer) :
    Tight layout session node ((known.narrow demanded).narrow answer) (proven.narrow answer) := by
  obtain ⟨hsensible, htie⟩ := h
  have hwithin := hanswer.honours.within
  refine ⟨hsensible.narrow hanswer.honours, ?_, hsensible.converts_narrow hanswer.honours⟩
  rcases htie with rfl | ⟨hsubset, hcapped⟩
  · by_cases hmeets : known.meets demanded = true
    · exact Kinds.narrow_narrow hwithin (hsensible.meets hdefinite hanswer.honours hmeets)
    · rw [Kinds.narrow_eq_self (.inr (Bool.eq_false_iff.mpr hmeets))]
  · -- what is left of both is the answer
    have hne := hanswer.honours.nonempty
    have hproven := hanswer.subset hcapped
    have hknown := Kinds.subset_trans hproven hsubset
    have hmeets : known.meets answer = true := by
      rw [Kinds.meets_comm]
      exact Kinds.meets_of_subset hknown hne
    rw [Kinds.narrow_narrow hwithin hmeets, Kinds.narrow_of_subset hknown hne,
      Kinds.narrow_of_subset hproven hne]

/-- A demand on the node by itself leaves all that the node converts to. -/
theorem Answers.converts_mem (h : Answers layout session node proven .any answer) {kind : Kind}
    (hconverts : Converts layout session node kind) (hkind : kind ∈ proven) :
    kind ∈ proven.narrow answer := by
  have hanswered := h.honours.converts kind Kinds.mem_any hconverts
  rw [Kinds.narrow, if_pos (Kinds.meets_iff.mpr ⟨kind, hkind, hanswered⟩)]
  exact Kinds.mem_inter.mpr ⟨hkind, hanswered⟩

theorem Answers.narrow_eq_self (h : Answers layout session node proven .any answer)
    (hall : ∀ kind ∈ proven, Converts layout session node kind) : proven.narrow answer = proven :=
  Kinds.narrow_eq_self (.inl (Kinds.subset_iff.mpr fun kind hkind =>
    h.honours.converts kind Kinds.mem_any (hall kind hkind)))

/-- A demand on the node by itself may leave the name behind. -/
theorem Loose.overtake (h : Loose layout session node known proven)
    (hself : Operation layout node ∨ Conversional layout session node)
    (hanswer : Answers layout session node proven .any answer) :
    Loose layout session node known (proven.narrow answer) := by
  obtain ⟨hsensible, htie⟩ := h
  have hshrinks := (Kinds.narrows_narrow proven answer).subset
  refine ⟨hsensible.narrow hanswer.honours, ?_⟩
  rcases hself with hoperation | hconversional
  · refine .inr ⟨?_, .inl hoperation⟩
    rcases htie with rfl | ⟨hsubset, -⟩
    · exact hshrinks
    · exact Kinds.subset_trans hshrinks hsubset
  · have hcapped : (∀ kind, Converts layout session node kind → kind ∈ proven) →
        Capped layout session node (proven.narrow answer) := fun hall =>
      .inr ⟨hconversional, fun kind hconverts =>
        hanswer.converts_mem hconverts (hall kind hconverts)⟩
    rcases htie with rfl | ⟨hsubset, hoperation | ⟨-, hall⟩⟩
    · rcases hsensible.converts hconversional with rfl | hall
      · exact .inr ⟨hshrinks, hcapped fun _ _ => Kinds.mem_any⟩
      · exact .inl (hanswer.narrow_eq_self hall).symm
    · exact .inr ⟨Kinds.subset_trans hshrinks hsubset, .inl hoperation⟩
    · exact .inr ⟨Kinds.subset_trans hshrinks hsubset, hcapped hall⟩

/-- A node that only converts does not change any more. -/
theorem Tight.overtake (h : Tight layout session node known proven)
    (hconversional : Conversional layout session node)
    (hanswer : Answers layout session node proven .any answer) :
    Tight layout session node known (proven.narrow answer) := by
  rw [hanswer.narrow_eq_self (h.converts hconversional)]
  exact h

end Answering

end Evaluation

/-! ## Names that are bound -/

namespace ScopeTree

variable {before after : ScopeTree}

/-- A step of a run binds no name but longer ones. -/
theorem Step.bound (h : before.Step after) {id : NameId} {node : NodeId}
    (hnode : (after.name id).origin.definition? = some node) :
    (id.index < before.names.size ∧ (before.name id).origin.definition? = some node) ∨
      ∃ parent component, after.child? parent component = some id := by
  by_cases hid : id.index < before.names.size
  · exact .inl ⟨hid, (h.grows.name id hid).origin.definition? ▸ hnode⟩
  · refine .inr ?_
    cases h with
    | keep _ _ _ hnew =>
        refine absurd (hnew id (NameRecord.isJunk_eq_false.mpr fun heq => ?_)) hid
        rw [heq] at hnode
        cases hnode
    | @define scope name origin hscope hnew hentitled =>
        change ((before.addName (.new name (some scope) origin)).name id).origin.definition? = _
          at hnode
        rw [name_addName] at hnode
        split at hnode
        · cases hentitled with
          | free => cases hnode
          | inherited _ _ horigin =>
              cases origin with
              | bound => cases horigin
              | _ => cases hnode
        · rw [name_of_size_le (Nat.le_of_not_lt hid)] at hnode
          cases hnode
    | @addChild parent component record hparent hnew hchildren =>
        rw [ScopeTree.addChild, origin_setChild, name_addName] at hnode
        split at hnode
        · next heq =>
          refine ⟨parent, component, ?_⟩
          rw [child?_addChild hparent component hchildren, if_pos ⟨rfl, rfl⟩, heq]
        · rw [name_of_size_le (Nat.le_of_not_lt hid)] at hnode
          cases hnode

/-- A run binds no names but longer ones. -/
theorem Extends.bound (h : before.Extends after) {id : NameId} {node : NodeId}
    (hnode : (after.name id).origin.definition? = some node) :
    (id.index < before.names.size ∧ (before.name id).origin.definition? = some node) ∨
      ∃ parent component, after.child? parent component = some id := by
  induction h with
  | refl =>
      refine .inl ⟨lt_size_of_not_junk (NameRecord.isJunk_eq_false.mpr fun heq => ?_), hnode⟩
      rw [heq] at hnode
      cases hnode
  | tail hrest hstep ih =>
      rcases hstep.2.bound hnode with ⟨-, hbound⟩ | hchild
      · rcases ih hbound with hbound | ⟨parent, component, hchild⟩
        · exact .inl hbound
        · exact .inr ⟨parent, component, hstep.2.child? hchild⟩
      · exact .inr hchild

end ScopeTree

namespace Evaluation

open ScopeM

/-! ## The order of requests -/

section Order

variable (tree : ScopeTree)

/-- What comes after a demand, when demands are put in order, has come after it before, or has
another priority. -/
theorem byPriority_append_cons (earlier : List Demand) (demand : Demand) (later : List Demand) :
    ∃ first last, byPriority tree (earlier ++ demand :: later) = first ++ demand :: last ∧
      ∀ other ∈ last, other ∈ later ∨ priority tree other ≠ priority tree demand := by
  have hmem : demand ∈ earlier ++ demand :: later := by simp
  have hlast := priority_le_last tree _ hmem 0
  unfold byPriority
  dsimp only
  generalize (earlier ++ demand :: later).foldl
    (fun last demand => max last (priority tree demand)) 0 = last at hlast ⊢
  have hlevel : priority tree demand ∈ List.range (last + 1) := List.mem_range.mpr (by omega)
  obtain ⟨lower, higher, hlevels⟩ := List.append_of_mem hlevel
  have hnodup : (List.range (last + 1)).Nodup := List.nodup_range
  rw [hlevels] at hnodup ⊢
  have hhigher := (List.nodup_cons.mp (List.nodup_append.mp hnodup).2.1).1
  have hsplit : (lower ++ priority tree demand :: higher).flatMap (fun level =>
      (earlier ++ demand :: later).filter fun other => priority tree other = level) =
        (lower.flatMap (fun level => (earlier ++ demand :: later).filter
            fun other => priority tree other = level) ++
          earlier.filter fun other => priority tree other = priority tree demand) ++
        demand :: ((later.filter fun other => priority tree other = priority tree demand) ++
          higher.flatMap fun level => (earlier ++ demand :: later).filter
            fun other => priority tree other = level) := by
    simp [List.filter_append, List.filter_cons]
  refine ⟨_, _, hsplit, fun other hother => ?_⟩
  rcases List.mem_append.mp hother with hother | hother
  · exact .inl (List.mem_of_mem_filter hother)
  · obtain ⟨level, hlevel, hother⟩ := List.mem_flatMap.mp hother
    have heq := of_decide_eq_true (List.mem_filter.mp hother).2
    exact .inr fun hsame => hhigher (hsame ▸ heq ▸ hlevel)

end Order

/-! ## Whole units -/

section Units

variable {unit : Expr} {file : String} {topLevel : Bool} {name : NameId} {value : NodeId}

/-- A name that is bound to a node in the end is so from the walk on. -/
theorem tied_finished (hdistinct : unit.Distinct)
    (hbound : ((finished (Survey.ofUnit unit file topLevel)).tree.name name).origin.definition? =
      some value) : Survey.Tied unit name value (Survey.ofUnit unit file topLevel) := by
  obtain ⟨hexplored, hadvances⟩ := finished_explored unit file topLevel
  rcases hadvances.extended.bound hbound with ⟨-, hstart⟩ | ⟨parent, component, hchild⟩
  · obtain ⟨kinds, horigin⟩ := Origin.definition?_eq_some_iff.mp hstart
    exact Survey.tied_ofUnit hdistinct horigin
  · -- a longer name is never bound
    obtain ⟨kinds, horigin⟩ := Origin.definition?_eq_some_iff.mp hbound
    cases (ScopeTree.definition?_of_bound horigin).symm.trans
      (hexplored.parents parent component name hchild).2

theorem placed_of_mem (hdistinct : unit.Distinct) (hmem : value ∈ unit.nodes.map Expr.id) :
    ((Survey.ofUnit unit file topLevel).defs.nodes.find? value).isSome := by
  obtain ⟨node, hnode, rfl⟩ := List.mem_map.mp hmem
  have hplaced : ∃ scope, (Survey.ofUnit unit file topLevel).defs.nodes.find? node.id =
      some ⟨node, scope⟩ := Survey.placed_ofUnit hdistinct hnode
  obtain ⟨scope, hscope⟩ := hplaced
  rw [hscope]
  rfl

theorem mem_innersOf {id heir : NodeId} {placement : Placement}
    (hplaced : (Survey.ofUnit unit file topLevel).defs.nodes.find? id = some placement)
    (hheir : heir ∈ placement.expr.way.heirs) : heir ∈ Expr.innersOf unit.nodes :=
  List.mem_flatMap.mpr ⟨placement.expr, (Survey.found_ofUnit hplaced).1,
    Expr.heirs_subset_unbound placement.expr hheir⟩

theorem trusted_subset_heirs (way : Way) : way.trusted ⊆ way.heirs := by
  cases way <;> simp [Way.trusted, Way.heirs]

theorem clear_finished (hdistinct : unit.Distinct)
    (hclean : (finished (Survey.ofUnit unit file topLevel)).reporter.report.totalErrors = 0) :
    Clear (Survey.ofUnit unit file topLevel).defs
      (finished (Survey.ofUnit unit file topLevel)) := by
  obtain ⟨hexplored, -⟩ := finished_explored unit file topLevel
  refine ⟨hclean, fun node placement id hplaced hmeant => ?_, fun node other hdefers => ?_⟩
  · rcases hexplored.owned node id placement hmeant hplaced with ⟨-, herrors⟩ | howned
    · omega
    · exact (howned.home hexplored.formed).1
  · refine placed_of_mem hdistinct ?_
    cases hdefers with
    | within hplaced hother =>
        exact unit.innersOf_subset (mem_innersOf hplaced (trusted_subset_heirs _ hother))
    | named _ _ _ hother =>
        rw [ScopeTree.definition?_bearer hexplored.formed] at hother
        exact unit.valuesOf_subset (tied_finished hdistinct hother).mem

theorem bond_finished (hdistinct : unit.Distinct)
    (hclean : (finished (Survey.ofUnit unit file topLevel)).reporter.report.totalErrors = 0)
    (hcalm : Calm (Survey.ofUnit unit file topLevel).defs
      (finished (Survey.ofUnit unit file topLevel)) value)
    (hbound : ((finished (Survey.ofUnit unit file topLevel)).tree.name name).origin.definition? =
      some value) :
    Bond (Survey.ofUnit unit file topLevel).defs (finished (Survey.ofUnit unit file topLevel)) name
      value := by
  have htied := tied_finished hdistinct hbound
  refine ⟨clear_finished hdistinct hclean, hcalm,
    placed_of_mem hdistinct (unit.valuesOf_subset htied.mem), hbound, htied.binding,
    fun id hid => ?_, fun node placement hplaced hheir => ?_⟩
  · exact Option.some.inj ((tied_finished hdistinct hid).binding.symm.trans htied.binding)
  · exact (hdistinct.value htied.mem).2 (mem_innersOf hplaced hheir)

/-- The request on behalf of a name is made after all requests of the node that come from the scope
of the name. -/
theorem requests_split {surveyed : Session Layout} (htied : Survey.Tied unit name value surveyed) :
    ∃ before after, requests surveyed = before ++ .definition value :: after ∧
      ∀ kinds, .node value kinds ∈ after → ∃ placement,
        surveyed.defs.nodes.find? value = some placement ∧
          some placement.scope ≠ (surveyed.tree.name name).scope? := by
  obtain ⟨scope, hscope, earlier, demand, later, hdemands, rfl, hasks, hnot⟩ := htied.awaited
  obtain ⟨first, last, hordered, hlast⟩ :=
    byPriority_append_cons (classified surveyed).tree earlier demand later
  obtain ⟨asks, asks', hsplit⟩ := List.append_of_mem hasks
  refine ⟨first.flatMap Demand.asks ++ asks, asks' ++ last.flatMap Demand.asks, ?_,
    fun kinds hmem => ?_⟩
  · rw [requests, hdemands, hordered, List.flatMap_append, List.flatMap_cons, hsplit]
    simp
  · rcases List.mem_append.mp hmem with hmem | hmem
    · exact absurd (by rw [hsplit]; simp [hmem]) (hnot demand List.mem_cons_self kinds)
    · obtain ⟨other, hother, hnode⟩ := List.mem_flatMap.mp hmem
      have hqueued : other ∈ surveyed.defs.demands := by
        rw [hdemands, ← mem_byPriority (classified surveyed).tree, hordered]
        simp [hother]
      obtain ⟨-, expr, -, hplaced⟩ := htied.asked other hqueued kinds hnode
      refine ⟨_, hplaced, fun heq => ?_⟩
      obtain hsame : other.scope = demand.scope := Option.some.inj (heq.trans hscope)
      rcases hlast other hother with hlater | hpriority
      · exact hnot other (List.mem_cons_of_mem _ hlater) kinds hnode
      · exact hpriority (by rw [priority, priority, hsame])

/-- A node that requests itself is an operation or only converts. -/
theorem self_of_asks {layout : Layout} {session : Session Progress} {expr : Expr} {scope : ScopeId}
    (hplaced : layout.nodes.find? value = some ⟨expr, scope⟩)
    (hasks : .node value .any ∈ expr.asks) :
    Operation layout value ∨ Conversional layout session value := by
  cases expr with
  | arithmetic mark operator left right => exact .inl ⟨_, left.id, right.id, hplaced, rfl⟩
  | enforce mark inner kinds =>
      have hend : ∀ other, ¬ Defers layout session value other := fun other hdefers => by
        cases hdefers.mem_trusted hplaced (by simp [Expr.way])
      refine .inr ⟨fun kind hyields => ?_, fun hmerges => ?_⟩
      · rcases hyields.cases hplaced with hown | ⟨other, hdefers, -⟩
        · exact absurd hown (by simp [yields, Expr.way])
        · exact hend other hdefers
      · rcases hmerges.cases hplaced with hown | ⟨other, hdefers, -⟩
        · exact hown
        · exact hend other hdefers
  | conditional mark condition consequent alternative =>
      obtain ⟨-, hkinds⟩ := Ask.node.inj (List.mem_singleton.mp hasks)
      exact absurd hkinds (by decide)
  | instantiate mark base overrides =>
      rcases List.mem_cons.mp hasks with heq | hmem
      · exact absurd (Ask.node.inj heq).2 (by decide)
      · obtain ⟨item, -, heq⟩ := List.mem_map.mp hmem
        cases heq
  | frame mark attributes | template mark attributes | letIn mark attributes body =>
      obtain ⟨item, -, heq⟩ := List.mem_map.mp hasks
      cases heq
  | _ => cases hasks

/-- Once all requests have been made, a name and its definition agree. -/
theorem answered_tight {surveyed : Session Layout} {final : Session Progress}
    (hbond : Bond surveyed.defs final name value)
    (hstart : Standing surveyed.defs [] [] (start surveyed))
    (htied : Survey.Tied unit name value surveyed)
    (hdefinite : Definite surveyed.defs final value)
    (hscope : Operation surveyed.defs value →
      (surveyed.defs.nodes.find? value).map Placement.scope = (surveyed.tree.name name).scope?) :
    Relates final name value (Tight surveyed.defs final value)
      (answeredIn surveyed (requests surveyed)) := by
  have hself : ∀ kinds, .node value kinds ∈ requests surveyed → kinds = .any ∧
      (Operation surveyed.defs value ∨ Conversional surveyed.defs final value) := by
    intro kinds hask
    obtain ⟨demand, hdemand, hnode⟩ := List.mem_flatMap.mp hask
    obtain ⟨rfl, expr, hasks, hplaced⟩ :=
      htied.asked demand ((mem_byPriority _).mp hdemand) kinds hnode
    exact ⟨rfl, self_of_asks hplaced hasks⟩
  obtain ⟨before, after, hrequests, hafter⟩ := requests_split htied
  rw [hrequests] at hself ⊢
  have hloose : ∀ known proven demanded answer, Loose surveyed.defs final value known proven →
      Answers surveyed.defs final value proven demanded answer →
        Loose surveyed.defs final value ((known.narrow demanded).narrow answer)
          (proven.narrow answer) := fun _ _ _ _ h hanswers =>
    (h.tighten hdefinite hanswers).loose
  -- nothing is known at first
  have hbegun : Relates final name value (Loose surveyed.defs final value) (start surveyed) := by
    refine ⟨hstart.formed, ScopeTree.lt_size_of_not_junk (NameRecord.isJunk_eq_false.mpr ?_),
      fun _ => ⟨⟨?_, fun _ _ => Kinds.mem_any, fun _ => .inl rfl⟩, .inl ?_⟩⟩
    · exact fun heq => by cases htied.origin.symm.trans heq
    · exact Kinds.ne_empty_iff.mpr ⟨.int, Kinds.mem_any⟩
    · exact congrArg Origin.known htied.origin
  have hclassified : Standing surveyed.defs [] [] (classified surveyed) ∧
      Relates final name value (Loose surveyed.defs final value) (classified surveyed) :=
    forM_preserves (fun session => Standing surveyed.defs [] [] session ∧
        Relates final name value (Loose surveyed.defs final value) session) surveyed.defs.lookups
      (fun id _ _ h => ⟨(classify_standing id h.1).1, classify_relates hbond hloose id h.1 h.2⟩)
      ⟨hstart, hbegun⟩
  -- the node may request itself, and then the name is left behind
  obtain ⟨hstanding, hbefore⟩ := answers_relate hbond hloose before
    (fun kinds hmem _ _ _ h hanswers => by
      obtain ⟨rfl, hown⟩ := hself kinds (List.mem_append_left _ hmem)
      exact h.overtake hown hanswers) hclassified.1 hclassified.2
  -- the request on behalf of the name makes up for this
  obtain ⟨hrequested, -⟩ := answer_standing (.definition value) hstanding
  have hdefined := answer_definition_relates hbond
    (fun _ _ _ h hanswers => h.tighten hdefinite hanswers) hstanding hbefore
  -- only a node that is not an operation requests itself after that
  have hrest := answers_relate hbond (fun _ _ _ _ h hanswers => h.loose.tighten hdefinite hanswers)
    after (fun kinds hmem _ _ _ h hanswers => by
      obtain ⟨rfl, hown⟩ := hself kinds (List.mem_append_right _ (List.mem_cons_of_mem _ hmem))
      obtain ⟨placement, hplaced, hne⟩ := hafter .any hmem
      rw [hplaced] at hscope
      exact h.overtake (hown.resolve_left fun hoperation => hne (hscope hoperation)) hanswers)
    hrequested hdefined
  rw [answeredIn, run_forM_append, run_forM_cons]
  exact hrest.2

end Units

end Evaluation

namespace Analysis

/-- The kinds of a bound name are those of its definition. -/
theorem possible_eq_kindsOf (unit : Expr) (hdistinct : unit.Distinct) (file : String)
    (options : Options) (hsuccess : (analyse unit file options).success = true) {name : NameId}
    {value : NodeId} {kinds : Kinds}
    (hbound : ((analyse unit file options).tree.name name).origin = .bound value kinds)
    (hcalm : Evaluation.Calm (Survey.ofUnit unit file options.topLevel).defs
      (Evaluation.finished (Survey.ofUnit unit file options.topLevel)) value)
    (hdefinite : Evaluation.Definite (Survey.ofUnit unit file options.topLevel).defs
      (Evaluation.finished (Survey.ofUnit unit file options.topLevel)) value)
    (hscope : Evaluation.Operation (Survey.ofUnit unit file options.topLevel).defs value →
      (analyse unit file options).scopeOf? value =
        ((analyse unit file options).tree.name name).scope?) :
    (analyse unit file options).kindsOf? value =
      some ((analyse unit file options).possible name) := by
  have hclean := totalErrors_eq_zero hsuccess
  rw [tree_analyse] at hbound hscope
  rw [scopeOf?, layout_analyse] at hscope
  have hbond := Evaluation.bond_finished hdistinct hclean hcalm (by rw [hbound]; rfl)
  have htied := Evaluation.tied_finished hdistinct hbond.bound
  obtain ⟨-, hadvances⟩ := Evaluation.finished_explored unit file options.topLevel
  have hsize := ScopeTree.lt_size_of_not_junk (NameRecord.isJunk_eq_false.mpr
    fun heq => by cases htied.origin.symm.trans heq)
  have hhome := (hadvances.evolves.grows.name name hsize).scope?
  have hanswered := Evaluation.answered_tight hbond
    (Evaluation.start_standing unit file options.topLevel) htied hdefinite
    fun hoperation => (hscope hoperation).trans hhome
  have hplain := Evaluation.checkMasks_plain hanswered.formed
  obtain ⟨reporter, hfinished⟩ := Evaluation.checkMasks_reports
    (Evaluation.answeredIn (Survey.ofUnit unit file options.topLevel)
      (Evaluation.requests (Survey.ofUnit unit file options.topLevel)))
  rw [← Evaluation.finished_eq_checked] at hplain hfinished
  have htight := (hanswered.holds (.of_eq hplain.evolves hplain.resolved)).eq
  generalize Evaluation.answeredIn (Survey.ofUnit unit file options.topLevel)
    (Evaluation.requests (Survey.ofUnit unit file options.topLevel)) = answered at hfinished htight
  obtain ⟨placement, hplaced⟩ := Option.isSome_iff_exists.mp hbond.placed
  rw [kindsOf?, layout_analyse, progress_analyse, hplaced, possible, tree_analyse,
    ScopeTree.possible_eq_known (by rw [hbound]; rfl), hfinished]
  exact congrArg some htight.symm

/-- A sum that is an attribute, beside the summand that it looks up. -/
def summed : Expr :=
  let mark (id : Nat) : Mark := ⟨⟨id⟩, .nowhere⟩
  .frame (mark 4) [
    .of "n" (.literal (mark 0) (.int 1)),
    .of "sum" (.arithmetic (mark 3) .add (.lookup (mark 1) ["n"]) (.literal (mark 2) (.int 2)))]

/-- The sum requests itself before it is requested on behalf of its name. -/
theorem possible_eq_kindsOf_summed :
    let surveyed := Survey.ofUnit summed "summed" (default : Options).topLevel
    (analyse summed "summed" default).success = true ∧
      ((analyse summed "summed" default).tree.name ⟨1⟩).origin = .bound ⟨3⟩ {.int} ∧
      Evaluation.Calm surveyed.defs (Evaluation.finished surveyed) ⟨3⟩ ∧
      Evaluation.Definite surveyed.defs (Evaluation.finished surveyed) ⟨3⟩ ∧
      Evaluation.Operation surveyed.defs ⟨3⟩ ∧
        (analyse summed "summed" default).kindsOf? ⟨3⟩ =
          some ((analyse summed "summed" default).possible ⟨1⟩) := by
  intro surveyed
  have hplaced : surveyed.defs.nodes.find? ⟨3⟩ = some ⟨.arithmetic ⟨⟨3⟩, .nowhere⟩ .add
      (.lookup ⟨⟨1⟩, .nowhere⟩ ["n"]) (.literal ⟨⟨2⟩, .nowhere⟩ (.int 2)), ⟨1⟩⟩ := rfl
  have hsuccess : (analyse summed "summed" default).success = true := by decide +kernel
  have hbound : ((analyse summed "summed" default).tree.name ⟨1⟩).origin =
      .bound ⟨3⟩ {.int} := by decide +kernel
  have hcalm : Evaluation.Calm surveyed.defs (Evaluation.finished surveyed) ⟨3⟩ := by
    intro other hpath
    rcases hpath.cases_head with rfl | ⟨next, hdefers, -⟩
    · exact ⟨by decide +kernel, by decide +kernel⟩
    · cases hdefers.mem_trusted hplaced (by simp [Expr.way])
  have hint : Kind.int ∈ (Evaluation.finished surveyed).defs.kindsOf ⟨3⟩ := by decide +kernel
  have hdefinite : Evaluation.Definite surveyed.defs (Evaluation.finished surveyed) ⟨3⟩ :=
    .inl ⟨.int, .self hplaced hint⟩
  refine ⟨hsuccess, hbound, hcalm, hdefinite, ⟨_, _, _, hplaced, rfl⟩, ?_⟩
  exact possible_eq_kindsOf summed (by decide) "summed" default hsuccess hbound hcalm hdefinite
    fun _ => by decide +kernel

/-- A sum that amends an attribute.  The first summand may be any number when the sum is requested
on behalf of its name, and it has to be an integer by the time when the sum requests itself. -/
def amended : Expr :=
  let mark (id : Nat) : Mark := ⟨⟨id⟩, .nowhere⟩
  .instantiate (mark 5) (.lookup (mark 0) ["t"]) [
    .amend "x" "orig" (.arithmetic (mark 4) .add (.lookup (mark 1) ["y"])
      (.enforce (mark 3) (.lookup (mark 2) ["y"]) {.int}))]

/-- An operation may be proven to have fewer kinds than its name. -/
theorem not_possible_eq_kindsOf :
    ¬ ∀ (unit : Expr) (file : String) (options : Options) (name : NameId) (value : NodeId)
      (kinds : Kinds), unit.Distinct → (analyse unit file options).success = true →
        ((analyse unit file options).tree.name name).origin = .bound value kinds →
          (analyse unit file options).kindsOf? value =
            some ((analyse unit file options).possible name) := by
  intro hall
  have hbound : ((analyse amended "amended" default).tree.name ⟨0⟩).origin =
      .bound ⟨4⟩ ({.int} ∪ {.float}) := by decide +kernel
  have hequal := hall amended "amended" default ⟨0⟩ ⟨4⟩ _ (by decide) (by decide +kernel) hbound
  revert hequal
  decide +kernel

end Analysis

end FrameLang
