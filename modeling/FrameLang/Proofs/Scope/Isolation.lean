import FrameLang.Proofs.Scope.Couples

/-!
# Two runs that differ inside

Two sessions in which the same is done step by step may differ in what is known inside
of a sealed interior, and in what is demanded there.  From outside they stay the same
(`Interior.Conceals`), whatever demands are made and whatever is looked up, on either
side.

## Strategy

What is done next never depends on kinds: which entry a lookup finds, which name is
inherited and which definition is asked is decided by records and scopes, and these are
alike in both sessions.  So the two sessions go through the same lookups
(`Interior.couples`).  Kinds only decide what a demand proves and whether it is reported,
and what is reported of demands leaves the complaints about scopes and lookups as they
are.  A demand on a name inside stays inside, since no name there hands it on to the
outside; and a demand on a name outside is the same in both sessions, and so is what it
proves.

The two definers may be different ones, as long as they keep this up themselves
(`Interior.Matches`).
-/

namespace FrameLang

/-- What a name that settles demands by itself makes of one. -/
theorem ScopeM.run_follow_settled {σ : Type} {definer : Definer σ} {id : NameId}
    {known demanded : Kinds} {unbox : Bool} {session : Session σ}
    (h : (session.tree.name id).origin.answer demanded = .of known demanded) :
    ((follow definer id demanded unbox).run session).1 =
        (if known.meets demanded = true then known ∩ demanded else known) ∧
      ((follow definer id demanded unbox).run session).2.tree =
          (session.demanding id demanded unbox).tree ∧
        ((follow definer id demanded unbox).run session).2.defs = session.defs ∧
        ((follow definer id demanded unbox).run session).2.reporter.scoping =
          session.reporter.scoping := by
  rw [run_follow, h, Answer.of]
  by_cases hmeets : known.meets demanded = true
  · simp only [if_pos hmeets]
    exact ⟨trivial, trivial, rfl, rfl⟩
  · simp only [if_neg hmeets]
    exact ⟨trivial, rfl, rfl, Reporter.scoping_nameConflict ..⟩

/-- What is known of an arithmetic operation after a demand. -/
def Intrinsic.afterDemand (entry : Intrinsic) (demanded : Kinds) (unbox : Bool) : Intrinsic :=
  if entry.kinds.meets demanded then ⟨entry.kinds ∩ demanded, entry.mustUnbox && unbox⟩ else entry

/-- What is known of an arithmetic operation after a demand is what the demand proves. -/
theorem ScopeM.run_ensureIntrinsic_weighed {σ : Type} (scope : ScopeId) (node : NodeId)
    (demanded : Kinds) (unbox : Bool) (span : Span) (session : Session σ) :
    let entry := ((session.tree.scope scope).intrinsics.find? node).getD ⟨demanded, unbox⟩
    let weighed := (ensureIntrinsic scope node demanded unbox span).run session
    weighed.1 = (entry.afterDemand demanded unbox).kinds ∧
      weighed.2.tree = session.tree.setIntrinsic scope node (entry.afterDemand demanded unbox) ∧
        weighed.2.defs = session.defs ∧
          weighed.2.reporter.scoping = session.reporter.scoping := by
  intro entry weighed
  have hrun := run_ensureIntrinsic scope node demanded unbox span session
  unfold Intrinsic.afterDemand
  by_cases hmeets : entry.kinds.meets demanded = true
  · have hweighed : weighed = _ := hrun.trans (if_pos hmeets)
    rw [hweighed, if_pos hmeets]
    exact ⟨rfl, rfl, rfl, rfl⟩
  · have hweighed : weighed = _ := hrun.trans (if_neg hmeets)
    rw [hweighed, if_neg hmeets]
    exact ⟨rfl, rfl, rfl, Reporter.scoping_expressionConflict ..⟩

namespace Interior

/-! ## Definitions -/

section Definitions

variable {σ α : Type} (interior : Interior) (own : ScopeTree → σ → σ → Prop)

/-- A comparison that goes on holding while a tree grows. -/
def Lasting : Prop :=
  ∀ (before after : ScopeTree) (defs defs' : σ), before.Grows after → own before defs defs' →
    own after defs defs'

/-- Two sessions are the same from outside, and what has been reported of scopes and lookups is the
same on either side.  How the states of their definitions compare is left to `own`. -/
structure Conceals (first second : Session σ) : Prop where
  formed : first.tree.Formed
  isSealed : interior.Sealed first.tree
  tree : first.tree.Alike interior second.tree
  own : own first.tree first.defs second.defs
  scoping : second.reporter.scoping = first.reporter.scoping

/-- Two steps lead to sessions that are the same from outside, and to the same result, unless that
is a secret. -/
structure Answers (secret : Prop) (first second : α × Session σ) : Prop where
  conceals : interior.Conceals own first.2 second.2
  same : ¬ secret → second.1 = first.1

/-- Two definers that keep from the outside what is inside. -/
def Matches (definer definer' : Definer σ) : Prop :=
  ∀ node demanded demanded' unbox (first second : Session σ), interior.Conceals own first second →
    (¬ interior.nodes node → demanded' = demanded) →
      interior.Answers own (interior.nodes node) ((definer node demanded unbox).run first)
        ((definer' node demanded' unbox).run second)

end Definitions

variable {σ α : Type} {interior : Interior} {own : ScopeTree → σ → σ → Prop}
  {first second first' second' : Session σ}

/-- What happens does not matter, and neither does what is reported of kinds. -/
theorem Conceals.congr (h : interior.Conceals own first second) (htree : first'.tree = first.tree)
    (hdefs : first'.defs = first.defs) (htree' : second'.tree = second.tree)
    (hdefs' : second'.defs = second.defs)
    (hscoping : second'.reporter.scoping = first'.reporter.scoping) :
    interior.Conceals own first' second' :=
  ⟨htree ▸ h.formed, htree ▸ h.isSealed, htree ▸ htree' ▸ h.tree,
    htree ▸ hdefs ▸ hdefs' ▸ h.own, hscoping⟩

theorem Conceals.noting (h : interior.Conceals own first second) (event event' : Event) :
    interior.Conceals own (first.noting event) (second.noting event') :=
  h.congr rfl rfl rfl rfl h.scoping

theorem Conceals.reporting (h : interior.Conceals own first second)
    {reporter reporter' : Reporter} (hscoping : reporter'.scoping = reporter.scoping) :
    interior.Conceals own (first.reporting reporter) (second.reporting reporter') :=
  h.congr rfl rfl rfl rfl hscoping

theorem Answers.imp {secret secret' : Prop} {outcome outcome' : α × Session σ}
    (h : interior.Answers own secret outcome outcome') (hsecret : secret → secret') :
    interior.Answers own secret' outcome outcome' :=
  ⟨h.conceals, fun hnot => h.same fun his => hnot (hsecret his)⟩

/-- A result that is no secret is the same. -/
theorem Answers.eq {outcome outcome' : α × Session σ}
    (h : interior.Answers own False outcome outcome') : outcome'.1 = outcome.1 := h.same id

/-- No name is bound that has been added to a tree along with a record without a definition. -/
theorem ne_bound_addName {tree : ScopeTree} {record : NameRecord}
    (hunbound : record.origin.definition? = none) {id : NameId} (hid : tree.names.size ≤ id.index)
    (node : NodeId) (kinds : Kinds) :
    ((tree.addName record).name id).origin ≠ .bound node kinds := by
  intro hbound
  rw [ScopeTree.name_addName] at hbound
  split at hbound
  · rw [hbound] at hunbound
    cases hunbound
  · rw [ScopeTree.name_of_size_le hid] at hbound
    cases hbound

section Steps

variable (hown : Lasting own)
include hown

/-- A step that changes the trees and adds no bound name. -/
theorem Conceals.withTree (h : interior.Conceals own first second) {tree tree' : ScopeTree}
    (hformed : tree.Formed) (hgrows : first.tree.Grows tree)
    (hscopes : tree.scopes.size = first.tree.scopes.size)
    (hnew : ∀ id, first.tree.names.size ≤ id.index → ∀ node kinds,
      (tree.name id).origin ≠ .bound node kinds)
    (hsame : tree.Alike interior tree') :
    interior.Conceals own (first.withTree tree) (second.withTree tree') :=
  ⟨hformed, h.isSealed.grows hgrows hscopes hnew, hsame, hown _ _ _ _ hgrows h.own, h.scoping⟩

/-- More comes to be known of a name. -/
theorem Conceals.modifyName (h : interior.Conceals own first second) {id : NameId}
    (change change' : NameRecord → NameRecord)
    (hgrows : (first.tree.name id).Grows (change (first.tree.name id)))
    (hchildren : (change (first.tree.name id)).children = (first.tree.name id).children)
    (hrecord : (change (first.tree.name id)).Alike (change' (second.tree.name id)))
    (horigin : ¬ interior.Owns first.tree id →
      (change' (second.tree.name id)).origin = (change (first.tree.name id)).origin) :
    interior.Conceals own (first.withTree (first.tree.modifyName id change))
      (second.withTree (second.tree.modifyName id change')) := by
  refine h.withTree hown (h.formed.modifyName hgrows hchildren) (ScopeTree.grows_modifyName hgrows)
    rfl (fun other hother node kinds => ?_) (h.tree.modifyName hgrows hrecord horigin)
  rw [ScopeTree.name_of_size_le (by rwa [ScopeTree.size_names_modifyName])]
  exact fun hbound => by cases hbound

theorem Conceals.demanding (h : interior.Conceals own first second) {id : NameId}
    {demanded demanded' : Kinds}
    (hdemanded : ¬ interior.Owns first.tree id → first.tree.isJunk id = true ∨ demanded' = demanded)
    (unbox : Bool) :
    interior.Conceals own (first.demanding id demanded unbox)
      (second.demanding id demanded' unbox) := by
  refine h.modifyName hown _ _ (NameRecord.grows_afterDemand ..)
    (NameRecord.children_afterDemand ..) ((h.tree.name id).afterDemand demanded demanded' unbox)
    fun houtside => ?_
  rw [NameRecord.origin_afterDemand, NameRecord.origin_afterDemand, h.tree.origin id houtside]
  rcases hdemanded houtside with hjunk | rfl
  · have horigin : (first.tree.name id).origin = .junk := of_decide_eq_true hjunk
    rw [horigin]
    rfl
  · rfl

theorem Conceals.proving (h : interior.Conceals own first second) {id : NameId}
    {proven proven' : Kinds} (hproven : ¬ interior.Owns first.tree id → proven' = proven) :
    interior.Conceals own (first.proving id proven) (second.proving id proven') := by
  refine h.modifyName hown _ _ (NameRecord.grows_afterProof ..) rfl
    ((h.tree.name id).afterProof proven proven') fun houtside => ?_
  have horigin := h.tree.origin id houtside
  rw [hproven houtside, NameRecord.afterProof, NameRecord.afterProof]
  exact congrArg (Origin.settle proven) horigin

theorem Conceals.define (h : interior.Conceals own first second) {scope : ScopeId} {name : String}
    {origin : Origin} (hlive : origin ≠ .junk) (hunbound : origin.definition? = none)
    (hfits : first.tree.Fits (.new name (some scope) origin))
    (hnone : first.tree.meaning? scope name = none) :
    interior.Conceals own (first.withTree (first.tree.define scope name origin))
      (second.withTree (second.tree.define scope name origin)) :=
  h.withTree hown (h.formed.define hlive hfits) (ScopeTree.grows_define hnone origin)
    (ScopeTree.size_scopes_modifyScope ..) (fun _ hid => ne_bound_addName hunbound hid)
    (h.tree.define ..)

theorem Conceals.addChild (h : interior.Conceals own first second) {id : NameId}
    {component : String} {record : NameRecord}
    (hformed : (first.tree.addChild id component record).Formed)
    (hunbound : record.origin.definition? = none) :
    interior.Conceals own (first.withTree (first.tree.addChild id component record))
      (second.withTree (second.tree.addChild id component record)) := by
  refine h.withTree hown hformed ((ScopeTree.grows_addName ..).trans (ScopeTree.grows_setChild ..))
    rfl (fun other hother => ?_) (h.tree.addChild ..)
  rw [ScopeTree.addChild, ScopeTree.origin_setChild]
  exact ne_bound_addName hunbound hother

theorem Conceals.junk (h : interior.Conceals own first second) :
    interior.Conceals own (first.withTree (first.tree.addName .junk))
      (second.withTree (second.tree.addName .junk)) :=
  h.withTree hown (h.formed.addName (ScopeTree.fits_junk ..)) (ScopeTree.grows_addName ..)
    rfl (fun _ hid => ne_bound_addName rfl hid) (h.tree.addName .junk)

end Steps

/-! ## Demands -/

section Demands

variable [Preorder σ] (hown : Lasting own) {definer definer' : Definer σ} (hsound : definer.Sound)
  (hmatches : interior.Matches own definer definer')
include hown hsound hmatches

omit [Preorder σ] hsound hmatches in
/-- A name that settles demands by itself. -/
theorem follow_answers_of_settled (h : interior.Conceals own first second) {id : NameId}
    {demanded demanded' : Kinds}
    (hdemanded : ¬ interior.Owns first.tree id → first.tree.isJunk id = true ∨ demanded' = demanded)
    (unbox : Bool) {known known' : Kinds}
    (hfirst : (first.tree.name id).origin.answer demanded = .of known demanded)
    (hsecond : (second.tree.name id).origin.answer demanded' = .of known' demanded')
    (hsame : ¬ interior.Owns first.tree id → demanded' = demanded ∧ known' = known) :
    interior.Answers own (interior.Owns first.tree id)
      ((ScopeM.follow definer id demanded unbox).run first)
      ((ScopeM.follow definer' id demanded' unbox).run second) := by
  obtain ⟨hproven, htree, hdefs, hscoping⟩ :=
    @ScopeM.run_follow_settled _ definer _ _ _ unbox _ hfirst
  obtain ⟨hproven', htree', hdefs', hscoping'⟩ :=
    @ScopeM.run_follow_settled _ definer' _ _ _ unbox _ hsecond
  refine ⟨(h.demanding hown hdemanded unbox).congr htree hdefs htree' hdefs'
    (hscoping'.trans (h.scoping.trans hscoping.symm)), fun houtside => ?_⟩
  obtain ⟨rfl, rfl⟩ := hsame houtside
  rw [hproven, hproven']

/-- A demand on a name inside may be another one in each session. -/
theorem follow_answers (h : interior.Conceals own first second) {id : NameId}
    {demanded demanded' : Kinds}
    (hdemanded : ¬ interior.Owns first.tree id → first.tree.isJunk id = true ∨ demanded' = demanded)
    (unbox : Bool) :
    interior.Answers own (interior.Owns first.tree id)
      ((ScopeM.follow definer id demanded unbox).run first)
      ((ScopeM.follow definer' id demanded' unbox).run second) := by
  -- a name hands a demand on to an earlier one, so the induction is on the index
  induction id using NameId.strongInduction generalizing first second with
  | step id ih =>
      have hdemanding := h.demanding hown hdemanded unbox
      have hgrows := (Session.Evolves.demanding h.formed id demanded unbox).grows
      have hasked : ∀ origin, (first.tree.name id).origin = origin → origin ≠ .junk →
          ¬ interior.Owns first.tree id → demanded' = demanded := by
        rintro origin rfl hlive houtside
        refine (hdemanded houtside).resolve_left fun hjunk => hlive (of_decide_eq_true hjunk)
      have horigin := (h.tree.name id).origin
      have houter := h.tree.origin id
      generalize hfirst : (first.tree.name id).origin = origin at horigin houter
      generalize hsecond : (second.tree.name id).origin = origin' at horigin houter
      cases horigin with
      | free known known' =>
          refine follow_answers_of_settled hown h hdemanded unbox
            (by rw [hfirst]; rfl : _ = Answer.of known demanded)
            (by rw [hsecond]; rfl : _ = Answer.of known' demanded') fun houtside => ?_
          exact ⟨hasked _ hfirst (by simp) houtside, Origin.free.inj (houter houtside)⟩
      | replaced known known' =>
          refine follow_answers_of_settled hown h hdemanded unbox
            (by rw [hfirst]; rfl : _ = Answer.of known demanded)
            (by rw [hsecond]; rfl : _ = Answer.of known' demanded') fun houtside => ?_
          exact ⟨hasked _ hfirst (by simp) houtside, Origin.replaced.inj (houter houtside)⟩
      | masked source known known' =>
          -- the demand stops here, whichever side the source is on
          refine follow_answers_of_settled hown h hdemanded unbox
            (by rw [hfirst]; rfl : _ = Answer.of known demanded)
            (by rw [hsecond]; rfl : _ = Answer.of known' demanded') fun houtside => ?_
          exact ⟨hasked _ hfirst (by simp) houtside, (Origin.masked.inj (houter houtside)).2⟩
      | junk =>
          rw [ScopeM.run_follow, ScopeM.run_follow, hfirst, hsecond]
          exact ⟨hdemanding, fun _ => rfl⟩
      | delegated source =>
          have hsource : (first.tree.name id).origin.source? = some source := by rw [hfirst]; rfl
          have hlt := (h.formed.source id source hsource).1
          have howns : interior.Owns (first.demanding id demanded unbox).tree source ↔
              interior.Owns first.tree source :=
            owns_iff_of_grows hgrows (Nat.lt_trans hlt (ScopeTree.lt_size_of_source hsource))
          rw [ScopeM.run_follow, ScopeM.run_follow, hfirst, hsecond]
          dsimp only [Origin.answer]
          rw [if_pos hlt, if_pos hlt]
          -- the interior is sealed: the source is on the same side as the name
          have hpassed := ih source hlt hdemanding (fun houtside => .inr ?_)
          · exact hpassed.imp fun hinside =>
              h.isSealed.owns_of_source h.formed hsource (howns.mp hinside)
          · exact hasked _ hfirst (by simp) fun hinside =>
              houtside (howns.mpr (h.isSealed.owns_source h.formed hfirst hinside))
      | bound node known known' =>
          have hid := ScopeTree.lt_size_of_not_junk (NameRecord.isJunk_eq_false.mpr
            (hfirst ▸ by simp : (first.tree.name id).origin ≠ .junk))
          have hnode := h.isSealed.bound id node known hfirst
          rw [ScopeM.run_follow, ScopeM.run_follow, hfirst, hsecond]
          dsimp only [Origin.answer]
          have hnoted := hdemanding.noting (.defining node demanded unbox)
            (.defining node demanded' unbox)
          have hdefined := hmatches node demanded demanded' unbox _ _ hnoted fun houtside =>
            hasked _ hfirst (by simp) fun hinside => houtside (hnode.mp hinside)
          -- what is proven is kept with the name, in the tree as the definition has left it
          have hstill := hgrows.trans (hsound node demanded unbox _ hnoted.formed).grows
          refine ⟨hdefined.conceals.proving hown fun houtside => hdefined.same fun hinside => ?_,
            fun houtside => hdefined.same fun hinside => houtside (hnode.mpr hinside)⟩
          exact houtside ((owns_iff_of_grows hstill hid).mpr (hnode.mpr hinside))

theorem ensure_answers (h : interior.Conceals own first second) {id : NameId}
    {demanded demanded' : Kinds}
    (hdemanded : ¬ interior.Owns first.tree id → first.tree.isJunk id = true ∨ demanded' = demanded)
    (unbox : Bool) :
    interior.Answers own (interior.Owns first.tree id)
      ((ScopeM.ensure definer id demanded unbox).run first)
      ((ScopeM.ensure definer' id demanded' unbox).run second) := by
  have hasked := h.noting (.asked id demanded unbox) (.asked id demanded' unbox)
  have hfollowed := follow_answers hown hsound hmatches hasked hdemanded unbox
  rw [ScopeM.run_ensure, ScopeM.run_ensure]
  exact ⟨hfollowed.conceals.noting _ _, hfollowed.same⟩

end Demands

/-- What is known of an arithmetic operation inside is a secret. -/
theorem ensureIntrinsic_answers [Preorder σ] (hown : Lasting own)
    (h : interior.Conceals own first second) {scope : ScopeId} (node : NodeId)
    {demanded demanded' : Kinds} (hdemanded : ¬ interior.scopes scope → demanded' = demanded)
    (unbox : Bool) (span : Span) :
    interior.Answers own (interior.scopes scope)
      ((ScopeM.ensureIntrinsic scope node demanded unbox span).run first)
      ((ScopeM.ensureIntrinsic scope node demanded' unbox span).run second) := by
  have hevolves := ScopeM.ensureIntrinsic_evolves scope node demanded unbox span h.formed
  obtain ⟨hproven, htree, hdefs, hscoping⟩ :=
    ScopeM.run_ensureIntrinsic_weighed scope node demanded unbox span first
  obtain ⟨hproven', htree', hdefs', hscoping'⟩ :=
    ScopeM.run_ensureIntrinsic_weighed scope node demanded' unbox span second
  have hentry : ¬ interior.scopes scope →
      ((second.tree.scope scope).intrinsics.find? node).getD ⟨demanded', unbox⟩ =
        ((first.tree.scope scope).intrinsics.find? node).getD ⟨demanded, unbox⟩ := by
    intro houtside
    rw [h.tree.intrinsics scope houtside, hdemanded houtside]
  refine ⟨⟨hevolves.formed, h.isSealed.grows hevolves.grows ?_ fun id hid other kinds => ?_, ?_,
      ?_, hscoping'.trans (h.scoping.trans hscoping.symm)⟩,
    fun houtside => by rw [hproven', hproven, hentry houtside, hdemanded houtside]⟩
  · rw [htree]
    exact ScopeTree.size_scopes_modifyScope ..
  · rw [htree, @ScopeTree.name_of_size_le (first.tree.setIntrinsic scope node _) id hid]
    exact fun heq => by cases heq
  · rw [htree, htree']
    exact h.tree.setIntrinsic node fun houtside => by rw [hentry houtside, hdemanded houtside]
  · rw [hdefs, hdefs']
    exact hown _ _ _ _ hevolves.grows h.own

/-! ## Lookups -/

section Lookups

variable [Preorder σ] (hown : Lasting own) {definer definer' : Definer σ} (hsound : definer.Sound)
  (hmatches : interior.Matches own definer definer')
include hown hsound hmatches

/-- What a lookup does on the way is the same in both sessions, on either side. -/
theorem couples : ScopeM.Couples definer definer' (interior.Conceals own) where
  formed h := h.formed
  tree h := h.tree.parallel
  reporting _ _ _ h := h.reporting (Reporter.scoping_push_congr h.scoping rfl)
  junk h := h.junk hown
  define h hlive hunbound hfits hnone := h.define hown hlive hunbound hfits hnone
  addChild h hformed hunbound := h.addChild hown hformed hunbound
  ensure _ h := (ensure_answers hown hsound hmatches h (fun _ => .inr rfl) false).conceals

/-- What is looked up is no secret. -/
theorem lookup_answers (h : interior.Conceals own first second) (scope : ScopeId)
    (path : List String) (span : Span) :
    interior.Answers own False ((ScopeM.lookup definer scope path span).run first)
      ((ScopeM.lookup definer' scope path span).run second) := by
  have hfound := (couples hown hsound hmatches).lookup hsound scope path span h
  exact ⟨hfound.related, fun _ => hfound.value⟩

end Lookups

end Interior

end FrameLang
