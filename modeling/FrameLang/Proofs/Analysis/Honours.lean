import FrameLang.Proofs.Analysis.Answers
import FrameLang.Proofs.Analysis.Bindings
import FrameLang.Proofs.Analysis.Coverage
import FrameLang.Proofs.Analysis.Demands

/-!
# What definitions answer

A node is evaluated anew whenever it is demanded, and what it answers depends on the demand: a
literal answers with its kind, a conversion with those of its kinds that are demanded, a choice
with what both of its branches answer.  This module bounds the answers to all demands on a node at
once (`Evaluation.Honours`), in an analysis that ends without an error.  An answer is never empty
and never exceeds the demand; whatever the node has by itself (`Evaluation.Yields`) is part of
every answer, and what it converts to (`Evaluation.Converts`) is part of it as far as it is
demanded.

## Strategy

A node that is met again while it is evaluated answers with what is proven of it so far, and a
lookup whose name is still being searched answers with the whole demand.  Neither has to do with
what the node would answer.  So the bounds are about nodes with which this never happens, in the
whole analysis (`Evaluation.Calm`), and then the nodes that such a node takes its kinds from are
calm as well.

For each construct there is one lemma about answers, without a run in it: if the nodes that it takes
its kinds from honour the demand, so does the construct (`leaf_honours` to `body_honours`).  What an
answer is put together from is stated once (`Honours.of_parts`).  `rule_honours` only finds these
answers in the run, and `evaluate_honest` is the induction on the depth.  A lookup goes through the
name that it means, and a name answers as its definition does (`follow_answered`).

The lower bounds speak of the end of the analysis (`yields`), where all entries are smallest; so
they hold at every moment before it.
-/

namespace FrameLang

/-! ## Definitions -/

/-- The kinds that a node converts to. -/
def Way.conversions : Way → Kinds
  | enforce _ kinds => kinds
  | leaf _ | lookup _ | coalesce _ _ | choose _ _ | arithmetic _ _ | body _ => ∅

/-- A node has more than one branch, one of which may be left out. -/
def Way.Merges : Way → Prop
  | coalesce _ _ => True
  | leaf _ | lookup _ | choose _ _ | arithmetic _ _ | enforce _ _ | body _ => False

namespace Evaluation

variable (layout : Layout) (session : Session Progress)

/-- The kinds that a node has without taking them from a definition, whatever is demanded of it. -/
def yields (expr : Expr) : Kinds :=
  match expr.way with
  | .leaf natural => natural
  | .lookup _ =>
      match session.defs.resolved.find? expr.id with
      | some name => if session.tree.definition? name = none then session.tree.held name else ∅
      | none => ∅
  | .arithmetic _ _ => session.defs.kindsOf expr.id
  | _ => ∅

/-- Something is true of a node, or of a node that it takes its kinds from. -/
def Behind (property : Expr → Prop) (node : NodeId) : Prop :=
  ∃ other placement, Relation.ReflTransGen (Defers layout session) node other ∧
    layout.nodes.find? other = some placement ∧ property placement.expr

/-- A node has some kind whatever is demanded of it, by itself or by what it takes its kinds from.
-/
abbrev Yields (node : NodeId) (kind : Kind) : Prop :=
  Behind layout session (fun expr => kind ∈ yields session expr) node

/-- A node converts to some kind, by itself or by what it takes its kinds from. -/
abbrev Converts (node : NodeId) (kind : Kind) : Prop :=
  Behind layout session (fun expr => kind ∈ expr.way.conversions) node

/-- A node has no kinds but those that it converts to. -/
def Conversional (node : NodeId) : Prop :=
  (∀ kind, ¬ Yields layout session node kind) ∧
    ¬ Behind layout session (fun expr => expr.way.Merges) node

/-- A node is not met again while it is evaluated, and it is not evaluated for the sake of what it
means itself; neither are the nodes that it takes its kinds from. -/
def Calm (node : NodeId) : Prop :=
  ∀ other, Relation.ReflTransGen (Defers layout session) node other →
    .reentered other ∉ session.trace ∧ ¬ EnteredInSearch session.trace other

/-- A demand on a node is answered with some of the demanded kinds.  Among them are all that the
node has by itself, and all that it converts to; if there are only the latter, there are no others.
-/
structure Honours (node : NodeId) (demanded answer : Kinds) : Prop where
  nonempty : answer ≠ ∅
  within : answer ⊆ demanded
  yields : ∀ kind, Yields layout session node kind → kind ∈ answer
  converts : ∀ kind ∈ demanded, Converts layout session node kind → kind ∈ answer
  conversional : Conversional layout session node →
    ∀ kind ∈ answer, Converts layout session node kind

/-- Nothing is wrong in the end, so no lookup has gone wrong, and all definitions are there. -/
structure Clear : Prop where
  clean : session.reporter.report.totalErrors = 0
  live : ∀ node placement name, layout.nodes.find? node = some placement →
    session.defs.resolved.find? node = some name → session.tree.isJunk name = false
  placed : ∀ node other, Defers layout session node other → (layout.nodes.find? other).isSome

variable {layout session}

/-! ## Nodes that a node takes its kinds from -/

section Defining

variable {node other : NodeId} {kind : Kind} {placement : Placement}

theorem Calm.defers (h : Calm layout session node) (hdefers : Defers layout session node other) :
    Calm layout session other :=
  fun _ hpath => h _ (.head hdefers hpath)

/-- What a lookup means so far is a name that nothing has gone wrong with. -/
theorem Clear.not_junk {final : Session Progress} {active searching : List NodeId}
    (hclear : Clear layout final) (hplaced : layout.nodes.find? node = some placement)
    (h : Standing layout active searching session) (hfinal : Precedes session final)
    {name : NameId} (hmeans : session.defs.resolved.find? node = some name) :
    session.tree.isJunk name = false := by
  have hgrows := hfinal.evolves.grows.name name (h.known _ _ hmeans)
  rw [ScopeTree.isJunk, ← hgrows.isJunk]
  exact hclear.live _ _ _ hplaced (hfinal.resolved _ _ hmeans)

theorem Behind.self {property : Expr → Prop} (hplaced : layout.nodes.find? node = some placement)
    (h : property placement.expr) : Behind layout session property node :=
  ⟨node, placement, .refl, hplaced, h⟩

theorem Behind.defers {property : Expr → Prop} (h : Behind layout session property other)
    (hdefers : Defers layout session node other) : Behind layout session property node := by
  obtain ⟨last, placement, hpath, hlast⟩ := h
  exact ⟨last, placement, .head hdefers hpath, hlast⟩

theorem Behind.cases {property : Expr → Prop} (h : Behind layout session property node)
    (hplaced : layout.nodes.find? node = some placement) :
    property placement.expr ∨
      ∃ other, Defers layout session node other ∧ Behind layout session property other := by
  obtain ⟨last, found, hpath, hfound, hlast⟩ := h
  rcases hpath.cases_head with rfl | ⟨next, hdefers, hrest⟩
  · obtain rfl := Option.some.inj (hplaced.symm.trans hfound)
    exact .inl hlast
  · exact .inr ⟨next, hdefers, last, found, hrest, hfound, hlast⟩

theorem Conversional.defers (h : Conversional layout session node)
    (hdefers : Defers layout session node other) : Conversional layout session other :=
  ⟨fun kind hyields => h.1 kind (hyields.defers hdefers),
    fun hmerges => h.2 (hmerges.defers hdefers)⟩

/-- A node that is not a lookup takes its kinds from the nodes that its construct trusts. -/
theorem Defers.mem_trusted (h : Defers layout session node other)
    (hplaced : layout.nodes.find? node = some placement)
    (hway : ∀ path, placement.expr.way ≠ .lookup path) : other ∈ placement.expr.way.trusted := by
  cases h with
  | within hfound hother =>
      obtain rfl := Option.some.inj (hplaced.symm.trans hfound)
      exact hother
  | named hfound hlookup =>
      obtain rfl := Option.some.inj (hplaced.symm.trans hfound)
      exact absurd hlookup (hway _)

/-- A lookup takes its kinds from the definition of what it means. -/
theorem Defers.definition? {path : List String} {name : NameId}
    (h : Defers layout session node other) (hplaced : layout.nodes.find? node = some placement)
    (hway : placement.expr.way = .lookup path)
    (hname : session.defs.resolved.find? node = some name) :
    session.tree.definition? name = some other := by
  cases h with
  | within hfound hother =>
      obtain rfl := Option.some.inj (hplaced.symm.trans hfound)
      rw [hway] at hother
      cases hother
  | named hfound hlookup hmeant hdefinition =>
      obtain rfl := Option.some.inj (hname.symm.trans hmeant)
      exact hdefinition

/-- What a node answers is put together from what it takes from other nodes, what it has of its own,
and what it converts to. -/
theorem Honours.of_parts {demanded answer : Kinds}
    (hplaced : layout.nodes.find? node = some placement) (hnonempty : answer ≠ ∅)
    (hwithin : answer ⊆ demanded) (hyields : Evaluation.yields session placement.expr ⊆ answer)
    (hconverts : ∀ kind ∈ demanded, kind ∈ placement.expr.way.conversions → kind ∈ answer)
    (hdefers : ∀ other, Defers layout session node other →
      ∃ part, Honours layout session other demanded part ∧ part ⊆ answer)
    (hupper : Conversional layout session node → ∀ kind ∈ answer,
      kind ∈ placement.expr.way.conversions ∨ ∃ other part, Defers layout session node other ∧
        Honours layout session other demanded part ∧ kind ∈ part) :
    Honours layout session node demanded answer where
  nonempty := hnonempty
  within := hwithin
  yields kind h := by
    rcases h.cases hplaced with hown | ⟨other, hother, h⟩
    · exact Kinds.subset_iff.mp hyields kind hown
    · obtain ⟨part, hpart, hsubset⟩ := hdefers other hother
      exact Kinds.subset_iff.mp hsubset kind (hpart.yields kind h)
  converts kind hdemanded h := by
    rcases h.cases hplaced with hown | ⟨other, hother, h⟩
    · exact hconverts kind hdemanded hown
    · obtain ⟨part, hpart, hsubset⟩ := hdefers other hother
      exact Kinds.subset_iff.mp hsubset kind (hpart.converts kind hdemanded h)
  conversional h kind hkind := by
    rcases hupper h kind hkind with hown | ⟨other, part, hother, hpart, hmem⟩
    · exact .self hplaced hown
    · have hrest := hpart.conversional (h.defers hother) kind hmem
      exact hrest.defers hother

/-- A construct that takes nothing from other nodes answers with what is its own. -/
theorem Honours.of_own {demanded answer : Kinds}
    (hplaced : layout.nodes.find? node = some placement)
    (htrusted : placement.expr.way.trusted = [])
    (hway : ∀ path, placement.expr.way ≠ .lookup path) (hnonempty : answer ≠ ∅)
    (hwithin : answer ⊆ demanded) (hyields : Evaluation.yields session placement.expr ⊆ answer)
    (hconverts : ∀ kind ∈ demanded, kind ∈ placement.expr.way.conversions → kind ∈ answer)
    (hupper : Conversional layout session node →
      ∀ kind ∈ answer, kind ∈ placement.expr.way.conversions) :
    Honours layout session node demanded answer := by
  refine .of_parts hplaced hnonempty hwithin hyields hconverts (fun other hother => ?_)
    fun h kind hkind => .inl (hupper h kind hkind)
  have hmem := hother.mem_trusted hplaced hway
  rw [htrusted] at hmem
  cases hmem

end Defining

/-! ## Putting answers together -/

theorem coalesced_of_subset (primary : Kinds) {fallback demanded : Kinds} (hne : fallback ≠ ∅)
    (hsubset : fallback ⊆ demanded) :
    coalesced primary fallback demanded ⊆ demanded ∧
      fallback ⊆ coalesced primary fallback demanded := by
  unfold coalesced
  dsimp only
  generalize primary.coalescing demanded \ {.unit} = rest
  have hmem : fallback ⊆ (rest ∪ fallback) ∩ demanded := Kinds.subset_iff.mpr fun kind hkind =>
    Kinds.mem_inter.mpr
      ⟨Kinds.mem_union.mpr (.inr hkind), Kinds.subset_iff.mp hsubset kind hkind⟩
  obtain ⟨kind, hkind⟩ := Kinds.ne_empty_iff.mp hne
  have hmeets : (rest ∪ fallback).meets demanded = true :=
    Kinds.meets_iff.mpr ⟨kind, Kinds.mem_inter.mp (Kinds.subset_iff.mp hmem kind hkind)⟩
  rw [if_pos hmeets]
  exact ⟨Kinds.inter_subset_right _ _, hmem⟩

theorem narrow_union {first second demanded : Kinds} (hne : first ≠ ∅)
    (hfirst : first ⊆ demanded) (hsecond : second ⊆ demanded) :
    (first ∪ second).narrow demanded = first ∪ second := by
  have hsubset : first ∪ second ⊆ demanded := Kinds.subset_iff.mpr fun kind hkind =>
    (Kinds.mem_union.mp hkind).elim (Kinds.subset_iff.mp hfirst kind)
      (Kinds.subset_iff.mp hsecond kind)
  obtain ⟨kind, hkind⟩ := Kinds.ne_empty_iff.mp hne
  have hunion : first ∪ second ≠ ∅ :=
    Kinds.ne_empty_iff.mpr ⟨kind, Kinds.mem_union.mpr (.inl hkind)⟩
  rw [Kinds.narrow, if_pos (Kinds.meets_of_subset hsubset hunion)]
  exact Kinds.inter_eq_self hsubset

/-- A demand on a name is answered with some of the demanded kinds, as the definition of the name
answers it, or else with all that the name can be. -/
structure Answered (layout : Layout) (final : Session Progress) (id : NameId)
    (demanded answer : Kinds) : Prop where
  nonempty : answer ≠ ∅
  within : answer ⊆ demanded
  held : final.tree.definition? id = none → final.tree.held id ⊆ answer
  honours : ∀ node, final.tree.definition? id = some node →
    Honours layout final node demanded answer

section Constructs

variable {layout : Layout} {final : Session Progress} {expr : Expr} {scope : ScopeId}
  {demanded answer : Kinds} (hplaced : layout.nodes.find? expr.id = some ⟨expr, scope⟩)
include hplaced

theorem leaf_honours {kind : Kind} (hway : expr.way = .leaf {kind}) (hkind : kind ∈ demanded) :
    Honours layout final expr.id demanded {kind} := by
  have hmem : kind ∈ ({kind} : Kinds) := Kinds.mem_singleton.mpr rfl
  have hown : yields final expr = {kind} := by rw [yields, hway]
  refine .of_own hplaced (by rw [hway]; rfl) (by simp [hway]) (Kinds.ne_empty_iff.mpr ⟨kind, hmem⟩)
    ?_ (hown ▸ Kinds.subset_refl _) (by simp [hway, Way.conversions]) ?_
  · exact Kinds.subset_iff.mpr fun other hother => by rwa [Kinds.mem_singleton.mp hother]
  · exact fun h => absurd (.self hplaced (hown ▸ hmem)) (h.1 kind)

/-- A name without a definition can be something, so that a lookup of it is not conversional. -/
theorem lookup_honours {path : List String} {name : NameId} (hway : expr.way = .lookup path)
    (hmeant : final.defs.resolved.find? expr.id = some name) (hheld : final.tree.held name ≠ ∅)
    (h : Answered layout final name demanded answer) :
    Honours layout final expr.id demanded answer := by
  have hown : yields final expr =
      if final.tree.definition? name = none then final.tree.held name else ∅ := by
    rw [yields, hway]
    dsimp only
    rw [hmeant]
  refine .of_parts hplaced h.nonempty h.within ?_ (by simp [hway, Way.conversions]) ?_ ?_
  · rw [hown]
    split
    · next hnone => exact h.held hnone
    · exact Kinds.subset_iff.mpr (by simp)
  · exact fun node hnode =>
      ⟨_, h.honours node (hnode.definition? hplaced hway hmeant), Kinds.subset_refl _⟩
  · intro hconversional kind hkind
    cases hnode : final.tree.definition? name with
    | some node =>
        exact .inr ⟨node, _, .named hplaced hway hmeant hnode, h.honours node hnode, hkind⟩
    | none =>
        obtain ⟨held, hmem⟩ := Kinds.ne_empty_iff.mp hheld
        rw [if_pos hnode] at hown
        exact absurd (.self hplaced (hown ▸ hmem)) (hconversional.1 held)

theorem coalesce_honours {primary fallback : NodeId} (hway : expr.way = .coalesce primary fallback)
    (others : Kinds) (h : Honours layout final fallback demanded answer) :
    Honours layout final expr.id demanded (coalesced others answer demanded) := by
  obtain ⟨hwithin, hsubset⟩ := coalesced_of_subset others h.nonempty h.within
  obtain ⟨kind, hkind⟩ := Kinds.ne_empty_iff.mp h.nonempty
  refine .of_parts hplaced (Kinds.ne_empty_iff.mpr ⟨kind, Kinds.subset_iff.mp hsubset kind hkind⟩)
    hwithin (Kinds.subset_iff.mpr (by simp [yields, hway])) (by simp [hway, Way.conversions]) ?_ ?_
  · intro next hnext
    have hmem := hnext.mem_trusted hplaced (by simp [hway])
    rw [hway] at hmem
    obtain rfl := List.mem_singleton.mp hmem
    exact ⟨_, h, hsubset⟩
  · exact fun hconversional => absurd (.self hplaced (by rw [hway]; trivial)) hconversional.2

theorem choose_honours {consequent alternative : NodeId} {other : Kinds}
    (hway : expr.way = .choose consequent alternative)
    (hconsequent : Honours layout final consequent demanded answer)
    (halternative : Honours layout final alternative demanded other) :
    Honours layout final expr.id demanded ((answer ∪ other).narrow demanded) := by
  rw [narrow_union hconsequent.nonempty hconsequent.within halternative.within]
  have hleft : answer ⊆ answer ∪ other :=
    Kinds.subset_iff.mpr fun kind hkind => Kinds.mem_union.mpr (.inl hkind)
  have hright : other ⊆ answer ∪ other :=
    Kinds.subset_iff.mpr fun kind hkind => Kinds.mem_union.mpr (.inr hkind)
  obtain ⟨kind, hkind⟩ := Kinds.ne_empty_iff.mp hconsequent.nonempty
  refine .of_parts hplaced (Kinds.ne_empty_iff.mpr ⟨kind, Kinds.subset_iff.mp hleft kind hkind⟩)
    ?_ (Kinds.subset_iff.mpr (by simp [yields, hway])) (by simp [hway, Way.conversions]) ?_ ?_
  · exact Kinds.subset_iff.mpr fun kind hkind => (Kinds.mem_union.mp hkind).elim
      (Kinds.subset_iff.mp hconsequent.within kind) (Kinds.subset_iff.mp halternative.within kind)
  · intro next hnext
    have hmem := hnext.mem_trusted hplaced (by simp [hway])
    rw [hway] at hmem
    rcases List.mem_pair.mp hmem with rfl | rfl
    · exact ⟨_, hconsequent, hleft⟩
    · exact ⟨_, halternative, hright⟩
  · have hdefers : ∀ next ∈ [consequent, alternative], Defers layout final expr.id next :=
      fun next hnext => .within hplaced (by rwa [hway])
    intro _ kind hkind
    rcases Kinds.mem_union.mp hkind with hkind | hkind
    · exact .inr ⟨consequent, _, hdefers consequent (by simp), hconsequent, hkind⟩
    · exact .inr ⟨alternative, _, hdefers alternative (by simp), halternative, hkind⟩

theorem arithmetic_honours {left right : NodeId} (hway : expr.way = .arithmetic left right)
    (hnonempty : final.defs.kindsOf expr.id ≠ ∅) (hsubset : final.defs.kindsOf expr.id ⊆ answer)
    (hwithin : answer ⊆ demanded) : Honours layout final expr.id demanded answer := by
  have hown : yields final expr = final.defs.kindsOf expr.id := by rw [yields, hway]
  obtain ⟨kind, hkind⟩ := Kinds.ne_empty_iff.mp hnonempty
  refine .of_own hplaced (by rw [hway]; rfl) (by simp [hway])
    (Kinds.ne_empty_iff.mpr ⟨kind, Kinds.subset_iff.mp hsubset kind hkind⟩) hwithin (hown ▸ hsubset)
    (by simp [hway, Way.conversions]) ?_
  exact fun h => absurd (.self hplaced (hown ▸ hkind)) (h.1 kind)

theorem enforce_honours {value : NodeId} {kinds : Kinds} (hway : expr.way = .enforce value kinds)
    (hmeets : kinds.meets demanded = true) :
    Honours layout final expr.id demanded (kinds ∩ demanded) := by
  obtain ⟨kind, hkind, hdemanded⟩ := Kinds.meets_iff.mp hmeets
  refine .of_own hplaced (by rw [hway]; rfl) (by simp [hway])
    (Kinds.ne_empty_iff.mpr ⟨kind, Kinds.mem_inter.mpr ⟨hkind, hdemanded⟩⟩)
    (Kinds.inter_subset_right _ _) (Kinds.subset_iff.mpr (by simp [yields, hway])) ?_ ?_
  · intro kind hdemanded hkind
    rw [hway] at hkind
    exact Kinds.mem_inter.mpr ⟨hkind, hdemanded⟩
  · intro _ kind hkind
    rw [hway]
    exact (Kinds.mem_inter.mp hkind).1

theorem body_honours {node : NodeId} (hway : expr.way = .body node)
    (h : Honours layout final node demanded answer) :
    Honours layout final expr.id demanded answer := by
  refine .of_parts hplaced h.nonempty h.within (Kinds.subset_iff.mpr (by simp [yields, hway]))
    (by simp [hway, Way.conversions]) ?_ ?_
  · intro next hnext
    have hmem := hnext.mem_trusted hplaced (by simp [hway])
    rw [hway] at hmem
    obtain rfl := List.mem_singleton.mp hmem
    exact ⟨_, h, Kinds.subset_refl _⟩
  · exact fun _ kind hkind =>
      .inr ⟨node, _, .within hplaced (by simp [hway, Way.trusted]), h, hkind⟩

end Constructs

/-! ## Evaluation -/

/-- A definer answers demands on calm nodes as it should, if nothing goes wrong. -/
def Honest (layout : Layout) (final : Session Progress) (active searching : List NodeId)
    (definer : Definer Progress) : Prop :=
  ∀ id demanded unbox session, Standing layout active searching session →
    Calm layout final id → (layout.nodes.find? id).isSome →
      Precedes ((definer id demanded unbox).run session).2 final →
        Honours layout final id demanded ((definer id demanded unbox).run session).1

section Demands

open ScopeM

variable {layout : Layout} {final session : Session Progress} {depth : Nat}
  {active searching : List NodeId} (hclear : Clear layout final)
  (hdefiner : Honest layout final active searching (evaluate layout depth active searching))
include hclear hdefiner

theorem follow_answered (id : NameId) (demanded : Kinds) (unbox : Bool)
    (h : Standing layout active searching session) (hlive : session.tree.isJunk id = false)
    (hcalm : ∀ node, final.tree.definition? id = some node →
      Calm layout final node ∧ (layout.nodes.find? node).isSome) :
    let followed := (follow (evaluate layout depth active searching) id demanded unbox).run session
    Precedes followed.2 final → Answered layout final id demanded followed.1 := by
  have hsound := evaluate_sound layout depth active searching
  intro followed
  have hfollows : Follows _ demanded unbox id session followed :=
    follows_follow _ id demanded unbox h.formed
  clear_value followed
  induction hfollows with
  | @settled id session proven hanswer =>
      have hdemanded := Session.Evolves.demanding h.formed id demanded unbox
      have hnot := Origin.ne_delegated_of_answer fun source heq => by cases hanswer.symm.trans heq
      have hbound : (session.tree.name id).origin.definition? = none :=
        Origin.definition?_of_answer fun node heq => by cases hanswer.symm.trans heq
      obtain ⟨hmeets, hproven⟩ := Origin.of_settled (NameRecord.isJunk_eq_false.mp hlive) hanswer
      have hne : proven ≠ ∅ := by
        obtain ⟨kind, hknown, hkind⟩ := Kinds.meets_iff.mp hmeets
        rw [hproven]
        exact Kinds.ne_empty_iff.mpr ⟨kind, Kinds.mem_inter.mpr ⟨hknown, hkind⟩⟩
      intro hfinal
      have hlimit : limit final id ⊆ proven := by
        have hnow := (limit_demanding h.formed hbound hnot unbox).trans
          (Origin.known_of_settled hanswer)
        exact hnow ▸ limit_subset hdemanded.formed hfinal.evolves id
      refine ⟨hne, ?_, fun hnone => ?_, fun node hnode => ?_⟩
      · change proven ⊆ demanded
        rw [hproven]
        exact Kinds.inter_subset_right _ _
      · rwa [limit_of_unbound hnone] at hlimit
      · have hnone : session.tree.definition? id = none :=
          ScopeTree.definition?_of_not_handedOn demanded (by simp [hanswer]) (by simp [hanswer])
        have hlast := (hdemanded.trans hfinal.evolves).grows.definition? h.formed
          (ScopeTree.lt_size_of_not_junk hlive)
        cases hnone.symm.trans (hlast.symm.trans hnode)
  | refused id _ =>
      intro hfinal
      exact absurd (hfinal.evolves.reporter.clean hclear.clean)
        (Reporter.totalErrors_push_ne_zero h.counts _)
  | delegated id source horigin hrest ih =>
      obtain ⟨-, hjunk, -⟩ := h.formed.source id source (by rw [horigin]; rfl)
      have hdemanded := Session.Evolves.demanding h.formed id demanded unbox
      have hevolves := (Follows.delegated id source horigin hrest).evolves hsound h.formed
      intro hfinal
      have hlast := ((hevolves.trans hfinal.evolves).grows.name id
        (ScopeTree.lt_size_of_not_junk hlive)).origin.delegated_iff.mpr horigin
      have hdefinition := ScopeTree.definition?_of_delegated hfinal.evolves.formed hlast
      have hanswered := ih (h.demanding id demanded unbox)
        (hdemanded.grows.retains.not_junk hjunk)
        (fun node hnode => hcalm node (hdefinition.trans hnode)) hfinal
      refine ⟨hanswered.nonempty, hanswered.within, fun hnone => ?_, fun node hnode => ?_⟩
      · rw [ScopeTree.held, ScopeTree.bearer_of_delegated hfinal.evolves.formed hlast]
        exact hanswered.held (hdefinition.symm.trans hnone)
      · exact hanswered.honours node (hdefinition.symm.trans hnode)
  | @bound id node _ _ defined horigin hdefined =>
      have hnoting := h.defining id node demanded unbox
      have hevaluated := (evaluate_standing depth node demanded unbox hnoting).1
      have hhonours := hdefiner node demanded unbox _ hnoting
      rw [hdefined] at hevaluated hhonours
      have hevolves := (Follows.bound id node horigin hdefined).evolves hsound h.formed
      intro hfinal
      have hlast := ((hevolves.trans hfinal.evolves).grows.definition? h.formed
        (ScopeTree.lt_size_of_not_junk hlive)).trans (ScopeTree.definition?_of_bound horigin)
      obtain ⟨hquiet, hplaced⟩ := hcalm node hlast
      have hhonoured := hhonours hquiet hplaced
        ((Precedes.proving hevaluated.formed id _).trans hfinal)
      refine ⟨hhonoured.nonempty, hhonoured.within, fun hnone => ?_, fun other hother => ?_⟩
      · cases hnone.symm.trans hlast
      · obtain rfl := Option.some.inj (hlast.symm.trans hother)
        exact hhonoured

theorem ensure_answered (id : NameId) (demanded : Kinds) (unbox : Bool)
    (h : Standing layout active searching session) (hlive : session.tree.isJunk id = false)
    (hcalm : ∀ node, final.tree.definition? id = some node →
      Calm layout final node ∧ (layout.nodes.find? node).isSome) :
    let ensured := (ensure (evaluate layout depth active searching) id demanded unbox).run session
    Precedes ensured.2 final → Answered layout final id demanded ensured.1 := by
  have hasking : Standing layout active searching (session.noting (.asked id demanded unbox)) :=
    h.noting trivial
  have hfollowing := follow_evolves (evaluate_sound layout depth active searching) id demanded
    unbox hasking.formed
  have hanswered := follow_answered hclear hdefiner id demanded unbox hasking hlive hcalm
  rw [run_ensure]
  dsimp only at hanswered ⊢
  intro hfinal
  exact hanswered ((Precedes.noting hfollowing.formed _).trans hfinal)

end Demands

section Rules

variable {layout : Layout} {final session : Session Progress} {depth : Nat}
  {active searching : List NodeId} (hclear : Clear layout final)
include hclear

theorem rule_honours {expr : Expr} {scope : ScopeId}
    (hagain : Honest layout final active searching (evaluate layout depth active searching))
    (hplaced : layout.nodes.find? expr.id = some ⟨expr, scope⟩)
    (hcalm : Calm layout final expr.id) (hsearch : expr.id ∉ searching) (demanded : Kinds)
    (unbox : Bool) (h : Standing layout active searching session) :
    let found := (rule (evaluate layout depth active searching)
      (evaluate layout depth active (expr.id :: searching)) searching scope demanded unbox
      expr).run session
    Precedes (leaving found.2 expr.id found.1) final →
      Honours layout final expr.id demanded found.1 := by
  rw [run_rule]
  cases hway : expr.way with
  | leaf natural =>
      obtain ⟨kind, rfl⟩ := leaf_singleton hway
      intro found hfinal
      have hmeets := leaf_serves h.counts (hfinal.evolves.reporter.clean hclear.clean)
      obtain ⟨other, hother, hkind⟩ := Kinds.meets_iff.mp hmeets
      obtain rfl := Kinds.mem_singleton.mp hother
      have hanswer : found.1 = {other} := run_leaf_fst expr.span other demanded session
      exact hanswer ▸ leaf_honours hplaced hway hkind
  | lookup path =>
      obtain ⟨hstanding, hprecedes, hmeans, hnone⟩ := resolve_standing depth scope expr.mark path h
      have hid : expr.mark.id = expr.id := rfl
      rw [hid] at hmeans hnone hstanding hprecedes
      dsimp only at hmeans ⊢
      generalize (resolve (evaluate layout depth active (expr.id :: searching)) searching scope
        expr.mark path).run session = found at hmeans hnone hstanding hprecedes ⊢
      cases hname : found.1 with
      | none => exact absurd (hnone hname) hsearch
      | some name =>
          obtain ⟨hensured, hlater⟩ := ensure_standing depth name demanded unbox hstanding
          have hanswered := ensure_answered hclear hagain name demanded unbox hstanding
          dsimp only at hensured hlater hanswered ⊢
          intro hleft
          have hfinal := (Precedes.leaving hensured.formed _ _).trans hleft
          have hmeant := hfinal.resolved _ _ (hlater.resolved _ _ (hmeans name hname))
          have hlive := hclear.not_junk hplaced hstanding (hlater.trans hfinal) (hmeans name hname)
          have hdefers : ∀ node, final.tree.definition? name = some node →
              Defers layout final expr.id node := fun node => .named hplaced hway hmeant
          exact lookup_honours hplaced hway hmeant (hfinal.evolves.formed.known _)
            (hanswered hlive (fun node hnode =>
              ⟨hcalm.defers (hdefers node hnode), hclear.placed _ _ (hdefers node hnode)⟩) hfinal)
  | coalesce primary fallback =>
      have hfallback := evaluate_standing depth fallback demanded unbox h
      have hprimary := evaluate_standing depth primary (demanded ∪ {.unit}) unbox hfallback.1
      dsimp only
      intro hleft
      have hdefers : Defers layout final expr.id fallback :=
        .within hplaced (by simp [hway, Way.trusted])
      exact coalesce_honours hplaced hway _ (hagain fallback demanded unbox session h
        (hcalm.defers hdefers) (hclear.placed _ _ hdefers)
        (hprimary.2.trans ((Precedes.leaving hprimary.1.formed _ _).trans hleft)))
  | choose consequent alternative =>
      have hconsequent := evaluate_standing depth consequent demanded unbox h
      have halternative := evaluate_standing depth alternative demanded unbox hconsequent.1
      dsimp only
      intro hleft
      have hlast := (Precedes.leaving halternative.1.formed _ _).trans hleft
      have hfirst : Defers layout final expr.id consequent :=
        .within hplaced (by simp [hway, Way.trusted])
      have hsecond : Defers layout final expr.id alternative :=
        .within hplaced (by simp [hway, Way.trusted])
      exact choose_honours hplaced hway
        (hagain consequent demanded unbox session h (hcalm.defers hfirst)
          (hclear.placed _ _ hfirst) (halternative.2.trans hlast))
        (hagain alternative demanded unbox _ hconsequent.1 (hcalm.defers hsecond)
          (hclear.placed _ _ hsecond) hlast)
  | arithmetic left right =>
      have hleft := evaluate_standing depth left .number true h
      have hright := evaluate_standing depth right .number true hleft.1
      have hnatural := arithmeticKinds_ne_empty
        ((evaluate layout depth active searching left .number true).run session).1
        ((evaluate layout depth active searching right .number true).run
          ((evaluate layout depth active searching left .number true).run session).2).1
      dsimp only
      generalize arithmeticKinds _ _ = natural at hnatural ⊢
      have hweighed := weighed_weighing hright.1.balanced hplaced hway hnatural demanded unbox
        expr.span
      intro hfinal
      obtain ⟨-, hwithin⟩ := hweighed.met hright.1.counts
        (hfinal.evolves.reporter.clean hclear.clean)
      -- the entry of the node when it is left is the answer, and it only shrinks afterwards
      have hproven := (hweighed.kindsOf expr.id).trans (if_pos rfl)
      have hkinds := hfinal.evolves.later.kinds expr.id
      exact arithmetic_honours hplaced hway
        (hkinds.nonempty (hweighed.balanced.inhabited expr.id)) (hproven ▸ hkinds.subset) hwithin
  | enforce value kinds =>
      have hvalue := evaluate_standing depth value kinds true h
      dsimp only
      intro hfinal
      have hmeets := leaf_serves hvalue.1.counts (hfinal.evolves.reporter.clean hclear.clean)
      rw [run_leaf, if_pos hmeets]
      exact enforce_honours hplaced hway hmeets
  | body node =>
      have hbody := evaluate_standing depth node demanded unbox h
      dsimp only
      intro hleft
      have hdefers : Defers layout final expr.id node :=
        .within hplaced (by simp [hway, Way.trusted])
      exact body_honours hplaced hway (hagain node demanded unbox session h (hcalm.defers hdefers)
        (hclear.placed _ _ hdefers) ((Precedes.leaving hbody.1.formed _ _).trans hleft))

theorem evaluate_honest (hdepth : idle layout active < depth) (searching : List NodeId) :
    Honest layout final active searching (evaluate layout depth active searching) := by
  induction depth generalizing active searching with
  | zero => exact absurd hdepth (Nat.not_lt_zero _)
  | succ depth ih =>
      intro id demanded unbox session h hcalm hsome
      obtain ⟨placement, hplacement⟩ := Option.isSome_iff_exists.mp hsome
      obtain rfl := h.placed id placement hplacement
      obtain ⟨hnever, hsearch⟩ := hcalm placement.expr.id .refl
      rw [run_evaluate_succ, hplacement]
      dsimp only
      by_cases hactive : placement.expr.id ∈ active
      · rw [if_pos hactive]
        intro hfinal
        exact absurd (hfinal.evolves.trace.subset List.mem_cons_self) hnever
      · rw [if_neg hactive]
        have hlt := Nat.lt_of_lt_of_le (idle_cons_lt hplacement hactive)
          (Nat.le_of_lt_succ hdepth)
        have hentering := h.entering hactive demanded
        have hruling := rule_evolves
          (evaluate_sound layout depth (placement.expr.id :: active) searching)
          (evaluate_sound layout depth (placement.expr.id :: active)
            (placement.expr.id :: searching)) searching placement.scope demanded unbox
          placement.expr hentering.formed
        have hruled := fun hidle => rule_honours hclear (ih hlt searching) hplacement hcalm hidle
          demanded unbox hentering
        dsimp only at hruled ⊢
        generalize (rule (evaluate layout depth (placement.expr.id :: active) searching)
          (evaluate layout depth (placement.expr.id :: active)
            (placement.expr.id :: searching)) searching placement.scope demanded unbox
          placement.expr).run (session.noting (.entered placement.expr.id demanded)) = found
          at hruling hruled ⊢
        intro hfinal
        have hleaving : Precedes found.2 (leaving found.2 placement.expr.id found.1) :=
          .leaving hruling.formed ..
        -- a node that is entered while its name is searched is not calm
        refine hruled (fun hmem => hsearch ⟨demanded, session.trace, ?_, ?_⟩) hfinal
        · exact (hruling.trans (hleaving.trans hfinal).evolves).trace
        · rw [h.nested.searched]
          exact hmem

end Rules

end Evaluation
end FrameLang
