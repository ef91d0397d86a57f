import FrameLang.Proofs.Scope.Steps

/-!
# What names do not matter to

Demands and lookups change what is known of names and make new names.  Apart from
that they run definitions.  So a property of sessions that names do not matter to
(`Session.Indifferent`) is kept by every demand and every lookup, provided that the
definitions keep it.
-/

namespace FrameLang

/-- Something that happens to a name, and not to a node. -/
def Event.Nominal : Event → Prop
  | asked .. | answered .. | defining .. => True
  | _ => False

/-- Names do not matter to a property of sessions, nor do reports and whatever happens to names. -/
def Session.Indifferent {σ : Type} (property : Session σ → Prop) : Prop :=
  ∀ before after : Session σ, after.defs = before.defs →
    after.tree.scopes.size = before.tree.scopes.size →
      (∀ scope, (after.tree.scope scope).intrinsics = (before.tree.scope scope).intrinsics) →
        (after.trace = before.trace ∨
          ∃ event : Event, event.Nominal ∧ after.trace = event :: before.trace) →
            property before → property after

/-- A definer that keeps a property of sessions. -/
def Definer.Maintains {σ : Type} (definer : Definer σ) (property : Session σ → Prop) : Prop :=
  ∀ node demanded unbox session, property session →
    property ((definer node demanded unbox).run session).2

namespace ScopeM

variable {σ : Type} {property : Session σ → Prop} (hproperty : Session.Indifferent property)
include hproperty

/-! ## Steps -/

section Steps

variable {session : Session σ} (h : property session)
include h

theorem noting_maintains (event : Event) (hevent : event.Nominal) :
    property (session.noting event) :=
  hproperty session _ rfl rfl (fun _ => rfl) (.inr ⟨event, hevent, rfl⟩) h

theorem reporting_maintains (reporter : Reporter) : property (session.reporting reporter) :=
  hproperty session _ rfl rfl (fun _ => rfl) (.inl rfl) h

theorem modifyName_maintains (id : NameId) (change : NameRecord → NameRecord) :
    property (session.withTree (session.tree.modifyName id change)) :=
  hproperty session _ rfl rfl (fun _ => rfl) (.inl rfl) h

theorem addName_maintains (record : NameRecord) :
    property (session.withTree (session.tree.addName record)) :=
  hproperty session _ rfl rfl (fun _ => rfl) (.inl rfl) h

theorem define_maintains (scope : ScopeId) (name : String) (origin : Origin) :
    property (session.withTree (session.tree.define scope name origin)) := by
  refine hproperty session _ rfl (ScopeTree.size_scopes_modifyScope ..) (fun other => ?_) (.inl rfl)
    h
  rw [Session.tree_withTree, ScopeTree.define, ScopeTree.setEntry, ScopeTree.scope_recording,
    ScopeTree.scope_modifyScope]
  split
  · next heq => rw [heq.1]; rfl
  · rfl

theorem addChild_maintains (id : NameId) (component : String) (record : NameRecord)
    (origin : Origin) : property (addChild session id component record origin) :=
  hproperty session _ rfl rfl (fun _ => rfl) (.inl rfl) h

theorem making_maintains {after : Session σ} (hmaking : session.Making after) : property after := by
  cases hmaking with
  | reporting error => exact reporting_maintains hproperty h _
  | junk => exact addName_maintains hproperty h .junk
  | define hnew hlive hunbound hfits => exact define_maintains hproperty h _ _ _
  | addChild => exact addChild_maintains hproperty h _ _ _ _

theorem junked_maintains : property (junked session).2 :=
  addName_maintains hproperty h .junk

theorem refused_maintains (span : Span) (name : String) : property (refused session span name).2 :=
  junked_maintains hproperty (reporting_maintains hproperty h _)

theorem lookBack_maintains (name : String) (chain : List ScopeId) :
    property ((lookBack name chain).run session).2 := by
  induction chain with
  | nil => exact h
  | cons here outer ih =>
      rw [run_lookBack_cons]
      cases session.tree.meaning? here name with
      | some entry => cases entry <;> exact h
      | none =>
          dsimp only
          cases ((lookBack name outer).run session).1 with
          | name source => exact define_maintains hproperty ih here name _
          | forbidden => exact ih
          | absent => exact ih

end Steps

/-! ## Demands and lookups -/

section Runs

variable {definer : Definer σ} (hdefiner : definer.Maintains property) {session : Session σ}
include hdefiner

theorem follow_maintains (id : NameId) (demanded : Kinds) (unbox : Bool) (h : property session) :
    property ((follow definer id demanded unbox).run session).2 := by
  induction id using NameId.strongInduction generalizing session with
  | step id ih =>
      have hdemanded : property (session.demanding id demanded unbox) :=
        modifyName_maintains hproperty h id _
      rw [run_follow]
      cases (session.tree.name id).origin.answer demanded with
      | settled proven => exact hdemanded
      | refused known => exact reporting_maintains hproperty hdemanded _
      | passOn source =>
          dsimp only
          split
          · next hlt => exact ih source hlt hdemanded
          · exact hdemanded
      | define node =>
          have hnoted := noting_maintains hproperty hdemanded (.defining node demanded unbox) trivial
          have hdefined := hdefiner node demanded unbox _ hnoted
          exact modifyName_maintains hproperty hdefined id _

theorem ensure_maintains (id : NameId) (demanded : Kinds) (unbox : Bool) (h : property session) :
    property ((ensure definer id demanded unbox).run session).2 := by
  have hasked := noting_maintains hproperty h (.asked id demanded unbox) trivial
  have hfollowed := follow_maintains hproperty hdefiner id demanded unbox hasked
  rw [run_ensure]
  exact noting_maintains hproperty hfollowed _ trivial

theorem createChild_maintains (id : NameId) (component : String) (h : property session) :
    property ((createChild definer id component).run session).2 := by
  induction id using NameId.strongInduction generalizing session with
  | step id ih =>
      have hcreate : ∀ (source : NameId) (session : Session σ), source.index < id.index →
          property session → property ((createChild definer source component).run session).2 :=
        fun source session hlt h => ih source hlt h
      have hinherited : ∀ (source : NameId) (session : Session σ), source.index < id.index →
          property session →
            property ((inheritedChild definer source component).run session).2 := by
        intro source session hlt h
        have hensured := ensure_maintains hproperty hdefiner source {.frame} false h
        have hrun : (inheritedChild definer source component).run session =
            (childOf definer source component).run
              ((ensure definer source {.frame} false).run session).2 := rfl
        rw [hrun, run_childOf]
        split
        · exact hensured
        · exact hcreate source _ hlt hensured
      have horigin : property (originOfChild definer id component session).2 := by
        unfold originOfChild
        cases (session.tree.name id).origin with
        | masked source mask =>
            dsimp only
            split
            · next hlt => exact hinherited source session hlt.1 h
            · exact h
        | delegated source =>
            dsimp only
            split
            · next hlt =>
              -- the source is given the child first, if it has none
              have hmade : property (if session.tree.hasChild source component = true then session
                  else ((createChild definer source component).run session).2) := by
                split
                · exact h
                · exact hcreate source session hlt h
              generalize (if session.tree.hasChild source component = true then session
                else ((createChild definer source component).run session).2) = made at hmade ⊢
              split
              · exact hinherited source made hlt hmade
              · exact hmade
            · exact h
        | _ => exact h
      rw [run_createChild]
      exact addChild_maintains hproperty horigin id component _ _

theorem drill_maintains (components : List String) (id : NameId) (h : property session) :
    property ((drill definer id components).run session).2 := by
  induction components generalizing id session with
  | nil => exact h
  | cons component rest ih =>
      have hensured := ensure_maintains hproperty hdefiner id {.frame} false h
      rw [run_drill_cons]
      dsimp only
      refine ih _ ?_
      rw [run_childOf]
      split
      · exact hensured
      · exact createChild_maintains hproperty hdefiner id component hensured

theorem lookupAlong_maintains (first : String) (rest : List String) (span : Span)
    (chain : List ScopeId) (h : property session) :
    property ((lookupAlong definer first rest span chain).run session).2 := by
  induction chain generalizing session with
  | nil => exact junked_maintains hproperty h
  | cons here outer ih =>
      rw [run_lookupAlong_cons]
      cases session.tree.meaning? here first with
      | some entry =>
          cases entry with
          | some id => exact drill_maintains hproperty hdefiner rest id h
          | none => exact refused_maintains hproperty h span first
      | none =>
          have hahead : property (lookedAhead definer first rest span here outer session).2 := by
            unfold lookedAhead
            split
            · exact ih h
            · exact h
          dsimp only
          generalize lookedAhead definer first rest span here outer session = ahead at hahead ⊢
          split
          · exact junked_maintains hproperty hahead
          · have hback := lookBack_maintains hproperty hahead first (here :: outer)
            generalize (lookBack first (here :: outer)).run ahead.2 = back at hback ⊢
            cases back.1 with
            | name id => exact drill_maintains hproperty hdefiner rest id hback
            | forbidden => exact refused_maintains hproperty hback span first
            | absent =>
                have hdefined := define_maintains hproperty hback here first (.free .any)
                exact drill_maintains hproperty hdefiner rest _ hdefined

theorem lookup_maintains (scope : ScopeId) (path : List String) (span : Span)
    (h : property session) : property ((lookup definer scope path span).run session).2 := by
  rw [run_lookup]
  cases path with
  | nil => exact junked_maintains hproperty (reporting_maintains hproperty h _)
  | cons first rest => exact lookupAlong_maintains hproperty hdefiner first rest span _ h

end Runs

end ScopeM

end FrameLang
