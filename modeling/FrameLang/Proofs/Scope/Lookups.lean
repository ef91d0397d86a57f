import FrameLang.Proofs.Scope.Evolution
import FrameLang.Proofs.Scope.Extension

/-!
# How a session evolves in a lookup

Looking back along the scopes and drilling down the components keep a tree well
formed and let it grow.  A lookup that goes wrong has been reported.

## Strategy

Each function comes first with an equation for its run (`run_…`), in which the
steps are applied to sessions one after the other.  What is inherited refers to
an entry of the scope directly outside (`fits_copy`), or to the child of what its
own name is inherited from (`fits_inherited`); this is what a well-formed tree
asks for.
-/

namespace FrameLang

namespace ScopeM

variable {σ : Type}

/-! ## Runs -/

theorem run_lookBack_cons (name : String) (here : ScopeId) (outer : List ScopeId)
    (session : Session σ) :
    (lookBack name (here :: outer)).run session =
      match session.tree.meaning? here name with
      | some (some id) => (.name id, session)
      | some none => (.forbidden, session)
      | none =>
          let found := (lookBack name outer).run session
          match found.1 with
          | .name source =>
              (.name found.2.tree.nextName, found.2.withTree (found.2.tree.define here name
                (if (found.2.tree.scope here).delegates then .delegated source
                  else .masked source .any)))
          | .forbidden => (.forbidden, found.2)
          | .absent => (.absent, found.2) := by
  rw [lookBack]
  simp only [run_bind, run_tree]
  cases session.tree.meaning? here name with
  | some entry => cases entry <;> rfl
  | none =>
      simp only [run_bind]
      cases ((lookBack name outer).run session).1 <;> rfl

theorem run_childOf (definer : Definer σ) (id : NameId) (component : String)
    (session : Session σ) :
    (childOf definer id component).run session =
      match session.tree.child? id component with
      | some child => (child, session)
      | none => (createChild definer id component).run session := by
  unfold childOf
  simp only [run_bind, run_tree]
  cases session.tree.child? id component <;> rfl

theorem run_drill_cons (definer : Definer σ) (id : NameId) (component : String)
    (rest : List String) (session : Session σ) :
    (drill definer id (component :: rest)).run session =
      let ensured := (ensure definer id {.frame} false).run session
      let child := (childOf definer id component).run ensured.2
      (drill definer child.1 rest).run child.2 := rfl

/-- The new child of a name, once it is clear what it is inherited from. -/
def addChild (session : Session σ) (id : NameId) (component : String) (record : NameRecord)
    (origin : Origin) : Session σ :=
  session.withTree (session.tree.addChild id component
    (.new (record.path ++ "." ++ component) record.scope? origin))

/-- The name that a child is inherited from: the child of the source of its name. -/
def inheritedChild (definer : Definer σ) (source : NameId) (component : String) :
    ScopeM σ NameId := do
  let _ ← ensure definer source {.frame} false
  childOf definer source component

/-- Where a new child of a name gets its value from, and the session once that is clear. -/
def originOfChild (definer : Definer σ) (id : NameId) (component : String) (session : Session σ) :
    Origin × Session σ :=
  match (session.tree.name id).origin with
  | .junk => (.junk, session)
  | .free _ | .replaced _ | .bound _ _ => (.free .any, session)
  | .masked source _ =>
      if source.index < id.index ∧ session.tree.hasChild source component = true then
        let inherited := (inheritedChild definer source component).run session
        (.masked inherited.1 .any, inherited.2)
      else (.free .any, session)
  | .delegated source =>
      if source.index < id.index then
        let made :=
          if session.tree.hasChild source component = true then session
          else ((createChild definer source component).run session).2
        if made.tree.hasChild source component = true then
          let inherited := (inheritedChild definer source component).run made
          (.delegated inherited.1, inherited.2)
        else (.free .any, made)
      else (.free .any, session)

theorem run_createChild (definer : Definer σ) (id : NameId) (component : String)
    (session : Session σ) :
    (createChild definer id component).run session =
      let origin := originOfChild definer id component session
      (origin.2.tree.nextName,
        addChild origin.2 id component (session.tree.name id) origin.1) := by
  rw [createChild]
  unfold originOfChild
  rw [run_bind, run_tree]
  dsimp only
  cases (session.tree.name id).origin with
  | junk => rfl
  | free kinds => rfl
  | replaced kinds => rfl
  | bound node kinds => rfl
  | masked source mask =>
      by_cases hlt : source.index < id.index
      · by_cases hchild : session.tree.hasChild source component = true
        · simp only [hlt, hchild, and_self, if_true, dite_true, run_bind, run_tree, inheritedChild,
            run_childOf]
          cases ((ensure definer source {.frame} false).run session).2.tree.child? source
            component <;> rfl
        · simp only [hlt, hchild, dite_true, run_bind, run_tree]
          rfl
      · simp only [hlt, false_and, if_false, dite_false]
        rfl
  | delegated source =>
      by_cases hlt : source.index < id.index
      · simp only [hlt, if_true, dite_true, run_bind, run_tree, inheritedChild, run_childOf]
        by_cases hchild : session.tree.hasChild source component = true
        · simp only [hchild, Bool.not_true, Bool.false_eq_true, if_false, if_true, run_bind,
            run_tree]
          cases ((ensure definer source {.frame} false).run session).2.tree.child? source
            component <;> rfl
        · simp only [hchild, Bool.not_false, Bool.false_eq_true, if_false, if_true, run_bind,
            run_tree]
          by_cases hmade : ((createChild definer source component).run session).2.tree.hasChild
              source component = true
          · simp only [hmade, if_true, run_bind, run_tree]
            cases ((ensure definer source {.frame} false).run
              ((createChild definer source component).run session).2).2.tree.child? source
                component <;> rfl
          · simp only [hmade]
            rfl
      · simp only [hlt, if_false, dite_false]
        rfl

/-- The outcome of a lookup that went wrong. -/
def junked (session : Session σ) : NameId × Session σ :=
  (session.tree.nextName, session.withTree (session.tree.addName .junk))

/-- The outcome of a lookup of a forbidden name. -/
def refused (session : Session σ) (span : Span) (name : String) : NameId × Session σ :=
  junked (session.reporting (session.reporter.forbiddenName span name))

/-- What comes of looking a whole path up further out, for the sake of a scope that delegates:
whether it went wrong there. -/
def lookedAhead (definer : Definer σ) (first : String) (rest : List String) (span : Span)
    (here : ScopeId) (outer : List ScopeId) (session : Session σ) : Bool × Session σ :=
  if ((session.tree.scope here).delegates && !outer.isEmpty) = true then
    let found := (lookupAlong definer first rest span outer).run session
    (found.2.tree.isJunk found.1, found.2)
  else (false, session)

theorem run_lookupAlong_cons (definer : Definer σ) (first : String) (rest : List String)
    (span : Span) (here : ScopeId) (outer : List ScopeId) (session : Session σ) :
    (lookupAlong definer first rest span (here :: outer)).run session =
      match session.tree.meaning? here first with
      | some (some id) => (drill definer id rest).run session
      | some none => refused session span first
      | none =>
          let ahead := lookedAhead definer first rest span here outer session
          if ahead.1 = true then junked ahead.2
          else
            let back := (lookBack first (here :: outer)).run ahead.2
            match back.1 with
            | .name id => (drill definer id rest).run back.2
            | .forbidden => refused back.2 span first
            | .absent =>
                (drill definer back.2.tree.nextName rest).run
                  (back.2.withTree (back.2.tree.define here first (.free .any))) := by
  rw [lookupAlong, run_bind, run_tree]
  dsimp only
  cases session.tree.meaning? here first with
  | some entry => cases entry <;> rfl
  | none =>
      dsimp only
      rw [run_bind, run_tree]
      unfold lookedAhead
      dsimp only
      by_cases hahead : ((session.tree.scope here).delegates && !outer.isEmpty) = true
      · rw [if_pos hahead, if_pos hahead, run_bind, run_bind, run_tree, run_bind, run_pure]
        dsimp only
        split
        · rfl
        · rw [run_bind]
          cases ((lookBack first (here :: outer)).run
            ((lookupAlong definer first rest span outer).run session).2).1 <;> rfl
      · rw [if_neg hahead, if_neg hahead, run_bind, run_pure]
        dsimp only
        rw [if_neg Bool.false_ne_true, if_neg Bool.false_ne_true, run_bind]
        cases ((lookBack first (here :: outer)).run session).1 <;> rfl

theorem run_lookup (definer : Definer σ) (scope : ScopeId) (path : List String) (span : Span)
    (session : Session σ) :
    (lookup definer scope path span).run session =
      match path with
      | [] => junked (session.reporting (session.reporter.emptyLookup span))
      | first :: rest =>
          (lookupAlong definer first rest span (session.tree.chain scope)).run session := by
  cases path <;> rfl

end ScopeM

/-! ## Looking back -/

/-- The finding that a lookup names nothing. -/
def Finding.emptyLookup (span : Span) : Finding :=
  ⟨.emptyLookup, span, "Lookup must name at least one attribute."⟩

/-- The finding that a hidden name is looked up. -/
def Finding.forbiddenName (span : Span) (name : String) : Finding :=
  ⟨.forbiddenName, span, s!"Lookup for “{name}” is forbidden."⟩

/-- What is wrong with looking up a path along a chain of scopes, if anything is. -/
def ScopeTree.fault? (tree : ScopeTree) (chain : List ScopeId) (path : List String) (span : Span) :
    Option Finding :=
  match path with
  | [] => some (.emptyLookup span)
  | first :: _ =>
      if tree.nearest? chain first = some none then some (.forbiddenName span first) else none

theorem ScopeTree.Extends.fault? {before after : ScopeTree} (h : before.Extends after)
    {scope : ScopeId} (hscope : scope.index < before.scopes.size) (path : List String)
    (span : Span) :
    after.fault? (after.chain scope) path span = before.fault? (before.chain scope) path span := by
  cases path with
  | nil => rfl
  | cons first rest =>
      have hchain : after.chain scope = before.chain scope := by
        rw [ScopeTree.chain, (h.grows.scope scope hscope).enclosing, ScopeTree.chain]
      rw [ScopeTree.fault?, ScopeTree.fault?, hchain]
      exact if_congr (h.forbids_iff (before.isChain_chain scope) first) rfl rfl

/-- What looking back along a chain of scopes has found and done. -/
structure LookedBack (name : String) (chain : List ScopeId) (before : ScopeTree)
    (found : Binding) (after : ScopeTree) : Prop where
  formed : after.Formed
  grows : before.Grows after
  elsewhere : ∀ scope other, scope ∉ chain →
    after.meaning? scope other = before.meaning? scope other
  children : ∀ id component, after.child? id component = before.child? id component
  entry : ∀ id, found = .name id →
    ∃ here outer, chain = here :: outer ∧ after.meaning? here name = some (some id)
  absent : found = .absent → after.nearest? chain name = none
  forbidden : found = .forbidden → after.nearest? chain name = some none
  extended : before.Extends after

namespace ScopeM

variable {σ : Type}

/-- A copy of an entry of the scope directly outside fits into a scope. -/
theorem fits_copy {tree : ScopeTree} (h : tree.Formed) {here outer : ScopeId}
    {rest : List ScopeId}
    (henclosing : (tree.scope here).enclosing = outer :: rest) {name : String} {source : NameId}
    (hsource : tree.meaning? outer name = some (some source)) :
    tree.Fits (.new name (some here)
      (if (tree.scope here).delegates then .delegated source else .masked source .any)) := by
  obtain ⟨hjunk, hscope, hpath⟩ := h.entry outer name source hsource
  have hany : Kinds.any ≠ ∅ := by decide
  have hfrom : ∀ other, (if (tree.scope here).delegates then Origin.delegated source
      else .masked source .any).source? = some other → other = source := by
    intro other hother
    split at hother
    · exact (Option.some.inj hother).symm
    · exact (Option.some.inj hother).symm
  refine ⟨rfl, fun _ => ⟨here, rfl⟩, ?_, ?_, ?_, ?_⟩
  · intro other hother
    rw [hfrom other hother]
    exact ⟨hjunk, hpath, here, outer, rest, rfl, henclosing, hscope⟩
  · rintro other scope horigin ⟨⟩
    simp only [NameRecord.new] at horigin
    split at horigin
    · assumption
    · cases horigin
  · rintro other mask scope horigin ⟨⟩
    simp only [NameRecord.new] at horigin
    split at horigin
    · cases horigin
    · next hflag => simpa using hflag
  · simp only [NameRecord.new]
    split
    · exact hany
    · exact hany

theorem lookBack_sound (name : String) {chain : List ScopeId} {session : Session σ}
    (h : session.tree.Formed) (hchain : session.tree.IsChain chain) :
    ∃ found after, (lookBack name chain).run session = (found, session.withTree after) ∧
      LookedBack name chain session.tree found after := by
  induction chain with
  | nil =>
      exact ⟨.absent, session.tree, rfl, h, .refl _, fun _ _ _ => rfl, fun _ _ => rfl,
        fun _ heq => (by cases heq), fun _ => rfl, fun heq => (by cases heq), .refl _⟩
  | cons here outer ih =>
      rw [run_lookBack_cons]
      cases hmeaning : session.tree.meaning? here name with
      | some entry =>
          cases entry with
          | some id =>
              refine ⟨.name id, session.tree, rfl, h, .refl _, fun _ _ _ => rfl, fun _ _ => rfl, ?_,
                fun heq => (by cases heq), fun heq => (by cases heq), .refl _⟩
              rintro id ⟨⟩
              exact ⟨here, outer, rfl, hmeaning⟩
          | none =>
              refine ⟨.forbidden, session.tree, rfl, h, .refl _, fun _ _ _ => rfl, fun _ _ => rfl,
                fun _ heq => (by cases heq), fun heq => (by cases heq), fun _ => ?_, .refl _⟩
              rw [ScopeTree.nearest?_cons, hmeaning]
              rfl
      | none =>
          -- the scopes further out answer first, and they leave this one alone
          obtain ⟨found, after, hrun, hfound⟩ := ih (hchain.tail h)
          have hnotmem := hchain.not_mem h
          have hstill : after.meaning? here name = none := by
            rw [hfound.elsewhere here name hnotmem, hmeaning]
          have helsewhere : ∀ scope other, scope ∉ here :: outer →
              after.meaning? scope other = session.tree.meaning? scope other :=
            fun scope other hscope => hfound.elsewhere scope other
              fun hmem => hscope (List.mem_cons_of_mem _ hmem)
          simp only [hrun, Session.tree_withTree]
          cases found with
          | forbidden =>
              refine ⟨.forbidden, after, rfl, hfound.formed, hfound.grows, helsewhere,
                hfound.children, fun _ heq => (by cases heq), fun heq => (by cases heq), fun _ => ?_,
                hfound.extended⟩
              rw [ScopeTree.nearest?_cons, hstill, hfound.forbidden rfl]
              rfl
          | absent =>
              refine ⟨.absent, after, rfl, hfound.formed, hfound.grows, helsewhere,
                hfound.children, fun _ heq => (by cases heq), fun _ => ?_, fun heq => (by cases heq),
                hfound.extended⟩
              exact ScopeTree.nearest?_cons_eq_none.mpr ⟨hstill, hfound.absent rfl⟩
          | name source =>
              -- a name that was found further out is handed on by a new name of this scope
              obtain ⟨next, rest, rfl, hsource⟩ := hfound.entry source rfl
              have henclosing : (after.scope here).enclosing = next :: rest :=
                hchain.grows hfound.grows (by simp)
              have hhere := ScopeTree.lt_size_of_enclosing henclosing
              have hfits := fits_copy hfound.formed henclosing hsource
              refine ⟨.name after.nextName, _, rfl, hfound.formed.define ?_ hfits,
                hfound.grows.trans (ScopeTree.grows_define hstill _), ?_, ?_, ?_,
                fun heq => (by cases heq), fun heq => (by cases heq), ?_⟩
              · split <;> simp
              · intro scope other hscope
                rw [ScopeTree.meaning?_define hhere, if_neg]
                · exact helsewhere scope other hscope
                · rintro ⟨rfl, -⟩
                  exact hscope List.mem_cons_self
              · intro id component
                rw [ScopeTree.child?_define, hfound.children]
              · rintro id ⟨⟩
                refine ⟨here, next :: rest, rfl, ?_⟩
                rw [ScopeTree.meaning?_define hhere, if_pos ⟨rfl, rfl⟩]
              · refine hfound.extended.trans (.step hfound.formed (.define hhere hstill ?_))
                refine .inherited henclosing hsource ?_
                split <;> rfl

/-! ## Drilling down -/

/-- The child of what a name is inherited from is what the child of the name is inherited from. -/
theorem fits_inherited {tree : ScopeTree} (h : tree.Formed) {id source inherited : NameId}
    {component : String} {origin : Origin}
    (hchild : tree.child? source component = some inherited)
    (horigin : (origin = .masked inherited .any ∧
        ∃ mask, (tree.name id).origin = .masked source mask) ∨
      (origin = .delegated inherited ∧ (tree.name id).origin = .delegated source)) :
    tree.Fits (.new ((tree.name id).path ++ "." ++ component) (tree.name id).scope? origin) := by
  have hany : Kinds.any ≠ ∅ := by decide
  have hsource : (tree.name id).origin.source? = some source := by
    rcases horigin with ⟨-, mask, heq⟩ | ⟨-, heq⟩
    · rw [heq]
      rfl
    · rw [heq]
      rfl
  have hfrom : ∀ other, origin.source? = some other → other = inherited := by
    rcases horigin with ⟨rfl, -⟩ | ⟨rfl, -⟩
    · exact fun other heq => (Option.some.inj heq).symm
    · exact fun other heq => (Option.some.inj heq).symm
  obtain ⟨-, hjunk, hpath, here, outer, rest, hhere, henclosing, houter⟩ :=
    h.source id source hsource
  obtain ⟨-, -, hjunk', hscope', hpath'⟩ := h.child source component inherited hchild
  have hlive : tree.isJunk id = false := by
    rw [ScopeTree.isJunk, NameRecord.isJunk_eq_false]
    rintro heq
    rw [heq] at hsource
    cases hsource
  refine ⟨rfl, fun _ => h.home id hlive, ?_, ?_, ?_, ?_⟩
  · intro other hother
    rw [hfrom other hother]
    refine ⟨by rw [hjunk', hjunk], by rw [hpath', hpath]; rfl, here, outer, rest, hhere, henclosing,
      by rw [hscope', houter]⟩
  · rintro other scope heq hscope
    rcases horigin with ⟨rfl, -⟩ | ⟨rfl, hid⟩
    · cases heq
    · exact h.delegated id source scope hid hscope
  · rintro other mask scope heq hscope
    rcases horigin with ⟨rfl, mask', hid⟩ | ⟨rfl, -⟩
    · exact h.masked id source mask' scope hid hscope
    · cases heq
  · rcases horigin with ⟨rfl, -⟩ | ⟨rfl, -⟩
    · exact hany
    · exact hany

/-- A free name fits below any name that is not junk. -/
theorem fits_below {tree : ScopeTree} (h : tree.Formed) {id : NameId}
    (hid : tree.isJunk id = false) (component : String) :
    tree.Fits (.new ((tree.name id).path ++ "." ++ component) (tree.name id).scope?
      (.free .any)) := by
  obtain ⟨scope, hscope⟩ := h.home id hid
  rw [hscope]
  exact ScopeTree.fits_free ..

section AddChild

variable {session : Session σ} {id : NameId} {record : NameRecord}

theorem child?_addChild (hid : id.index < session.tree.names.size) (component : String)
    (origin : Origin) (other : NameId) (here : String) :
    (addChild session id component record origin).tree.child? other here =
      if id = other ∧ component = here then some session.tree.nextName
      else session.tree.child? other here :=
  ScopeTree.child?_addChild hid component rfl other here

/-- A new child that fits below its name keeps a tree well formed. -/
theorem formed_addChild (h : session.tree.Formed) (hid : id.index < session.tree.names.size)
    (hrecord : (session.tree.name id).path = record.path ∧
      (session.tree.name id).scope? = record.scope?)
    {component : String} {origin : Origin}
    (hfits : session.tree.Fits (.new ((session.tree.name id).path ++ "." ++ component)
      (session.tree.name id).scope? origin))
    (hjunk : origin = .junk ↔ (session.tree.name id).origin = .junk) :
    (addChild session id component record origin).tree.Formed := by
  unfold addChild
  rw [← hrecord.1, ← hrecord.2]
  have hold := ScopeTree.name_addName_of_lt session.tree
    (.new ((session.tree.name id).path ++ "." ++ component) (session.tree.name id).scope? origin) hid
  refine (h.addName hfits).setChild hid (by simp [ScopeTree.nextName]) ?_ ?_ ?_
  · rw [ScopeTree.isJunk, ScopeTree.isJunk, hold, ScopeTree.name_addName_self]
    exact decide_eq_decide.mpr hjunk
  · rw [hold, ScopeTree.name_addName_self]
    rfl
  · rw [hold, ScopeTree.name_addName_self]
    rfl

theorem addChild_evolves [Preorder σ] (h : session.tree.Formed)
    (hid : id.index < session.tree.names.size)
    (hrecord : (session.tree.name id).path = record.path ∧
      (session.tree.name id).scope? = record.scope?)
    {component : String} {origin : Origin}
    (hfits : session.tree.Fits (.new ((session.tree.name id).path ++ "." ++ component)
      (session.tree.name id).scope? origin))
    (hjunk : origin = .junk ↔ (session.tree.name id).origin = .junk) :
    session.Evolves (addChild session id component record origin) :=
  .tree (formed_addChild h hid hrecord hfits hjunk)
    ((ScopeTree.grows_addName _ _).trans (ScopeTree.grows_setChild _ _ _ _))

end AddChild

/-- What a new child of a name is inherited from is found, given that the names before it can be
given children.  Where this leads is left to `reached`, as long as the name stays what it is. -/
theorem originOfChild_reached {definer : Definer σ} {id : NameId} (component : String)
    {session : Session σ} (h : session.tree.Formed) {reached : Session σ → Prop}
    (hself : reached session)
    (hformed : ∀ after, reached after → after.tree.Formed)
    (hgrows : ∀ after, reached after → (session.tree.name id).Grows (after.tree.name id))
    (hcreated : ∀ source : NameId, source.index < id.index →
      reached ((createChild definer source component).run session).2)
    (hinherited : ∀ (source : NameId) (made : Session σ), source.index < id.index → reached made →
      reached ((inheritedChild definer source component).run made).2 ∧
        ((inheritedChild definer source component).run made).2.tree.child? source component =
          some ((inheritedChild definer source component).run made).1) :
    reached (originOfChild definer id component session).2 ∧
      (originOfChild definer id component session).2.tree.Fits
        (.new (((originOfChild definer id component session).2.tree.name id).path ++ "." ++
            component)
          ((originOfChild definer id component session).2.tree.name id).scope?
          (originOfChild definer id component session).1) ∧
      ((originOfChild definer id component session).1 = .junk ↔
        ((originOfChild definer id component session).2.tree.name id).origin = .junk) := by
  have hfree : ∀ made : Session σ, reached made → (session.tree.name id).origin ≠ .junk →
      made.tree.Fits (.new ((made.tree.name id).path ++ "." ++ component)
        (made.tree.name id).scope? (.free .any)) ∧
      (Origin.free .any = .junk ↔ (made.tree.name id).origin = .junk) := by
    intro made hmade hlive
    have hstill : (made.tree.name id).origin ≠ .junk := by
      rwa [ne_eq, (hgrows made hmade).origin.junk_iff]
    refine ⟨fits_below (hformed made hmade) ?_ component, by simp [hstill]⟩
    rw [ScopeTree.isJunk, NameRecord.isJunk_eq_false]
    exact hstill
  unfold originOfChild
  cases horigin : (session.tree.name id).origin with
  | junk => exact ⟨hself, ScopeTree.fits_junk .., by simp [horigin]⟩
  | free kinds => exact ⟨hself, hfree session hself (by simp [horigin])⟩
  | replaced kinds => exact ⟨hself, hfree session hself (by simp [horigin])⟩
  | bound node kinds => exact ⟨hself, hfree session hself (by simp [horigin])⟩
  | masked source mask =>
      have hlt := (h.source id source (by rw [horigin]; rfl)).1
      dsimp only
      split
      · obtain ⟨hinherits, hchild⟩ := hinherited source session hlt hself
        obtain ⟨mask', hstill⟩ :=
          (hgrows _ hinherits).origin.exists_mask_iff.mpr ⟨mask, horigin⟩
        exact ⟨hinherits, fits_inherited (hformed _ hinherits) hchild (.inl ⟨rfl, mask', hstill⟩),
          by simp [hstill]⟩
      · exact ⟨hself, hfree session hself (by simp [horigin])⟩
  | delegated source =>
      have hlt := (h.source id source (by rw [horigin]; rfl)).1
      dsimp only
      rw [if_pos hlt]
      -- the source is given the child first, if it has none
      have hmade : reached (if session.tree.hasChild source component = true then session
          else ((createChild definer source component).run session).2) := by
        split
        · exact hself
        · exact hcreated source hlt
      generalize (if session.tree.hasChild source component = true then session
          else ((createChild definer source component).run session).2) = made at hmade ⊢
      split
      · obtain ⟨hinherits, hchild⟩ := hinherited source made hlt hmade
        have hstill := (hgrows _ hinherits).origin.delegated_iff.mpr horigin
        exact ⟨hinherits, fits_inherited (hformed _ hinherits) hchild (.inr ⟨rfl, hstill⟩),
          by simp [hstill]⟩
      · exact ⟨hmade, hfree made hmade (by simp [horigin])⟩

section Sound

variable [Preorder σ]

/-- A run that leads to the child of a name. -/
structure Reaches (session : Session σ) (id : NameId) (component : String)
    (reached : NameId × Session σ) : Prop where
  evolves : session.Evolves reached.2
  child? : reached.2.tree.child? id component = some reached.1

variable {definer : Definer σ}

theorem childOf_reaches_of {session : Session σ} {id : NameId} {component : String}
    (h : session.tree.Formed)
    (hcreate : Reaches session id component ((createChild definer id component).run session)) :
    Reaches session id component ((childOf definer id component).run session) := by
  rw [run_childOf]
  cases hchild : session.tree.child? id component with
  | some child => exact ⟨.refl h, hchild⟩
  | none => exact hcreate

variable (hdefiner : definer.Sound)
include hdefiner

theorem originOfChild_evolves {id : NameId} (component : String)
    (hcreate : ∀ source : NameId, source.index < id.index → ∀ session : Session σ,
      session.tree.Formed → source.index < session.tree.names.size →
        Reaches session source component ((createChild definer source component).run session))
    {session : Session σ} (h : session.tree.Formed) (hid : id.index < session.tree.names.size) :
    session.Evolves (originOfChild definer id component session).2 ∧
      (originOfChild definer id component session).2.tree.Fits
        (.new (((originOfChild definer id component session).2.tree.name id).path ++ "." ++
            component)
          ((originOfChild definer id component session).2.tree.name id).scope?
          (originOfChild definer id component session).1) ∧
      ((originOfChild definer id component session).1 = .junk ↔
        ((originOfChild definer id component session).2.tree.name id).origin = .junk) := by
  refine originOfChild_reached component h (.refl h) (fun _ hafter => hafter.formed)
    (fun _ hafter => hafter.grows.name id hid)
    (fun source hlt => (hcreate source hlt session h (Nat.lt_trans hlt hid)).evolves)
    fun source made hlt hmade => ?_
  -- the child of the source, once the demands that come with inheriting it have been made
  have hensured := hmade.trans (ensure_evolves hdefiner source {.frame} false hmade.formed)
  have hsize := Nat.lt_of_lt_of_le (Nat.lt_trans hlt hid) hensured.grows.size_names
  have hreached := childOf_reaches_of hensured.formed (hcreate source hlt _ hensured.formed hsize)
  exact ⟨hensured.trans hreached.evolves, hreached.child?⟩

/-- The child of a name is made, and from then on it is the child of the name. -/
theorem createChild_reaches (id : NameId) (component : String) {session : Session σ}
    (h : session.tree.Formed) (hid : id.index < session.tree.names.size) :
    Reaches session id component ((createChild definer id component).run session) := by
  induction id using NameId.strongInduction generalizing session with
  | step id ih =>
      obtain ⟨horigin, hfits, hjunk⟩ := originOfChild_evolves hdefiner component
        (fun source hlt session h hsource => ih source hlt h hsource)
        h hid
      have hsize := Nat.lt_of_lt_of_le hid horigin.grows.size_names
      have hrecord := horigin.grows.name id hid
      rw [run_createChild]
      refine ⟨horigin.trans (addChild_evolves horigin.formed hsize
        ⟨hrecord.path, hrecord.scope?⟩ hfits hjunk), ?_⟩
      exact (child?_addChild hsize ..).trans (if_pos ⟨rfl, rfl⟩)

theorem childOf_reaches (id : NameId) (component : String) {session : Session σ}
    (h : session.tree.Formed) (hid : id.index < session.tree.names.size) :
    Reaches session id component ((childOf definer id component).run session) :=
  childOf_reaches_of h (createChild_reaches hdefiner id component h hid)

/-- Drilling down from a name that is not junk leads to a name of the same scope that is not junk
either. -/
theorem drill_evolves (components : List String) (id : NameId) {session : Session σ}
    (h : session.tree.Formed) (hid : session.tree.isJunk id = false) :
    session.Evolves ((drill definer id components).run session).2 ∧
      ((drill definer id components).run session).2.tree.isJunk
        ((drill definer id components).run session).1 = false ∧
      (((drill definer id components).run session).2.tree.name
        ((drill definer id components).run session).1).scope? = (session.tree.name id).scope? := by
  induction components generalizing id session with
  | nil => exact ⟨.refl h, hid, rfl⟩
  | cons component rest ih =>
      have hensured := ensure_evolves hdefiner id {.frame} false h
      have hlive := hensured.grows.not_junk hid
      obtain ⟨hevolves, hchild⟩ := childOf_reaches hdefiner id component hensured.formed
        (ScopeTree.lt_size_of_not_junk hlive)
      obtain ⟨-, -, hjunk, hscope, -⟩ := hevolves.formed.child id component _ hchild
      rw [hevolves.grows.not_junk hlive] at hjunk
      have hmade := hensured.trans hevolves
      rw [(hmade.grows.name id (ScopeTree.lt_size_of_not_junk hid)).scope?] at hscope
      obtain ⟨hdrilled, hresult, hhome⟩ := ih _ hevolves.formed hjunk
      rw [run_drill_cons]
      exact ⟨hmade.trans hdrilled, hresult, hhome.trans hscope⟩

end Sound

/-! ## Looking up -/

section LookUp

variable [Preorder σ]

/-- A lookup in a scope lets a session evolve and leads to a name of the scope; if it goes wrong, that
has been reported. -/
structure LookedUp (scope : ScopeId) (before : Session σ) (found : NameId × Session σ) : Prop where
  evolves : before.Evolves found.2
  lt_size : found.1.index < found.2.tree.names.size
  home : found.2.tree.isJunk found.1 = false →
    (found.2.tree.name found.1).scope? = some scope
  reported : before.reporter.Counts → found.2.tree.isJunk found.1 = true →
    0 < found.2.reporter.report.totalErrors

variable {scope : ScopeId}

theorem LookedUp.after {before middle : Session σ} {found : NameId × Session σ}
    (h : before.Evolves middle) (h' : LookedUp scope middle found) : LookedUp scope before found :=
  ⟨h.trans h'.evolves, h'.lt_size, h'.home,
    fun hcounts => h'.reported (h.reporter.counts hcounts)⟩

theorem lookedUp_junked {before session : Session σ} (h : before.Evolves session)
    (hreported : before.reporter.Counts → 0 < session.reporter.report.totalErrors) :
    LookedUp scope before (junked session) := by
  have hjunked : session.Evolves (junked session).2 :=
    .tree (h.formed.addName (ScopeTree.fits_junk ..)) (ScopeTree.grows_addName ..)
  have hjunk : (junked session).2.tree.isJunk (junked session).1 = true := by
    rw [junked, Session.tree_withTree, ScopeTree.isJunk, ScopeTree.name_addName_self]
    rfl
  exact ⟨h.trans hjunked, by simp [junked, ScopeTree.nextName],
    fun hlive => (by cases hjunk.symm.trans hlive), fun hcounts _ => hreported hcounts⟩

theorem lookedUp_reported {session : Session σ} (h : session.tree.Formed) (error : Diagnostic) :
    LookedUp scope session (junked (session.reporting (session.reporter.push error))) :=
  lookedUp_junked (.reporting h (Reporter.grows_push ..))
    fun hcounts => Reporter.totalErrors_push_pos hcounts error

/-- A new name of a scope is not junk. -/
theorem define_evolves {name : String} {session : Session σ} (h : session.tree.Formed)
    (hnew : session.tree.meaning? scope name = none) :
    session.Evolves (session.withTree (session.tree.define scope name (.free .any))) ∧
      (session.tree.define scope name (.free .any)).isJunk session.tree.nextName = false ∧
        ((session.tree.define scope name (.free .any)).name session.tree.nextName).scope? =
          some scope := by
  have hformed := h.define (by simp) (session.tree.fits_free scope name)
  have hname : (session.tree.define scope name (.free .any)).name session.tree.nextName =
      .new name (some scope) (.free .any) := ScopeTree.name_addName_self ..
  refine ⟨.tree hformed (ScopeTree.grows_define hnew _), ?_, by rw [hname]; rfl⟩
  rw [ScopeTree.isJunk, hname]
  rfl

variable {definer : Definer σ} (hdefiner : definer.Sound)
include hdefiner

theorem lookedUp_drill {id : NameId} (components : List String) {session : Session σ}
    (h : session.tree.Formed) (hid : session.tree.isJunk id = false)
    (hhome : (session.tree.name id).scope? = some scope) :
    LookedUp scope session ((drill definer id components).run session) := by
  obtain ⟨hevolves, hlive, hscope⟩ := drill_evolves hdefiner components id h hid
  exact ⟨hevolves, ScopeTree.lt_size_of_not_junk hlive, fun _ => hscope.trans hhome,
    fun _ hjunk => by simp [hlive] at hjunk⟩

theorem lookedUp_lookupAlong (first : String) (rest : List String) (span : Span)
    {chain : List ScopeId} (hhead : chain.head? = some scope) {session : Session σ}
    (h : session.tree.Formed) (hchain : session.tree.IsChain chain) :
    LookedUp scope session ((lookupAlong definer first rest span chain).run session) := by
  induction chain generalizing scope with
  | nil => cases hhead
  | cons here outer ih =>
      obtain rfl := Option.some.inj hhead
      rw [run_lookupAlong_cons]
      cases hmeaning : session.tree.meaning? here first with
      | some entry =>
          cases entry with
          | some id =>
              obtain ⟨hlive, hhome, -⟩ := h.entry here first id hmeaning
              exact lookedUp_drill hdefiner rest h hlive hhome
          | none => exact lookedUp_reported h _
      | none =>
          -- a scope that delegates has the whole path looked up further out first
          have hahead : session.Evolves (lookedAhead definer first rest span here outer session).2 ∧
              (session.reporter.Counts →
                (lookedAhead definer first rest span here outer session).1 = true →
                  0 < (lookedAhead definer first rest span here outer
                    session).2.reporter.report.totalErrors) := by
            unfold lookedAhead
            split
            · next hdelegates =>
              cases houter : outer.head? with
              | none =>
                  rw [List.head?_eq_none_iff] at houter
                  simp [houter] at hdelegates
              | some next =>
                  have hfound := ih houter (hchain.tail h)
                  exact ⟨hfound.evolves, hfound.reported⟩
            · exact ⟨.refl h, fun _ hfalse => by cases hfalse⟩
          dsimp only
          generalize lookedAhead definer first rest span here outer session = ahead at hahead ⊢
          obtain ⟨hevolves, hreported⟩ := hahead
          split
          · next hwrong => exact lookedUp_junked hevolves fun hcounts => hreported hcounts hwrong
          · obtain ⟨found, after, hrun, hback⟩ := lookBack_sound first hevolves.formed
              (hchain.grows hevolves.grows)
            have hafter : session.Evolves (ahead.2.withTree after) :=
              hevolves.trans (.tree hback.formed hback.grows)
            rw [hrun]
            cases found with
            | name id =>
                obtain ⟨scope, others, heq, hentry⟩ := hback.entry id rfl
                obtain ⟨rfl, rfl⟩ := List.cons.inj heq
                obtain ⟨hlive, hhome, -⟩ := hback.formed.entry _ first id hentry
                exact (lookedUp_drill hdefiner rest hback.formed hlive hhome).after hafter
            | forbidden => exact (lookedUp_reported hback.formed _).after hafter
            | absent =>
                have hformed : (ahead.2.withTree after).tree.Formed := hback.formed
                obtain ⟨hdefined, hlive, hhome⟩ := define_evolves hformed
                  (ScopeTree.nearest?_cons_eq_none.mp (hback.absent rfl)).1
                exact (lookedUp_drill hdefiner rest hdefined.formed hlive hhome).after
                  (hafter.trans hdefined)

theorem lookedAhead_evolves (first : String) (rest : List String) (span : Span) {here : ScopeId}
    {outer : List ScopeId} {session : Session σ} (h : session.tree.Formed)
    (hchain : session.tree.IsChain (here :: outer)) :
    session.Evolves (lookedAhead definer first rest span here outer session).2 := by
  unfold lookedAhead
  split
  · next hdelegates =>
    cases outer with
    | nil => simp at hdelegates
    | cons next others =>
        exact (lookedUp_lookupAlong hdefiner first rest span rfl h (hchain.tail h)).evolves
  · exact .refl h

theorem lookedUp_lookup (scope : ScopeId) (path : List String) (span : Span)
    {session : Session σ} (h : session.tree.Formed) :
    LookedUp scope session ((lookup definer scope path span).run session) := by
  rw [run_lookup]
  cases path with
  | nil => exact lookedUp_reported h _
  | cons first rest =>
      exact lookedUp_lookupAlong hdefiner first rest span rfl h (session.tree.isChain_chain scope)

end LookUp

end ScopeM

end FrameLang
