import FrameLang.Proofs.Scope.Interior
import FrameLang.Proofs.Scope.Steps

/-!
# Two lookups side by side

What a lookup does next is decided by how the tree is laid out: which entry it finds, which
name it inherits, which child it makes.  It does not look at what is known of the names.
So two sessions whose trees are laid out alike (`ScopeTree.Parallel`) go through the same
lookup in the same steps and come to the same name.

## Strategy

Which relation between the sessions is kept on the way is left open (`ScopeM.Couples`): it
has to be kept by what a lookup does by itself and by the demands that it makes, each of
them in both sessions at once.  The recursions of a lookup are then gone through once
(`ScopeM.Couples.lookup`), with what is known of the first session alone
(`ScopeM.lookedUp_lookup` and the lemmas before it) to fill in the conditions.
-/

namespace FrameLang

/-! ## Definitions -/

/-- Two steps come to the same result, and to sessions that are related. -/
structure ScopeM.Coupled {σ α : Type} (related : Session σ → Session σ → Prop)
    (first second : α × Session σ) : Prop where
  value : second.1 = first.1
  related : related first.2 second.2

/-- A relation between sessions that is kept by whatever lookups do by themselves, and by the
demands that they make on names. -/
structure ScopeM.Couples {σ : Type} (definer definer' : Definer σ)
    (related : Session σ → Session σ → Prop) : Prop where
  formed : ∀ {first second}, related first second → first.tree.Formed
  tree : ∀ {first second}, related first second → first.tree.Parallel second.tree
  reporting : ∀ {first second} (code : Code) (message : String) (span : Span),
    related first second → related (first.reporting (first.reporter.error code message span))
      (second.reporting (second.reporter.error code message span))
  junk : ∀ {first second}, related first second →
    related (first.withTree (first.tree.addName .junk))
      (second.withTree (second.tree.addName .junk))
  define : ∀ {first second} {scope : ScopeId} {name : String} {origin : Origin},
    related first second → origin ≠ .junk → origin.definition? = none →
      first.tree.Fits (.new name (some scope) origin) → first.tree.meaning? scope name = none →
        related (first.withTree (first.tree.define scope name origin))
          (second.withTree (second.tree.define scope name origin))
  addChild : ∀ {first second} {id : NameId} {component : String} {record : NameRecord},
    related first second → (first.tree.addChild id component record).Formed →
      record.origin.definition? = none →
        related (first.withTree (first.tree.addChild id component record))
          (second.withTree (second.tree.addChild id component record))
  ensure : ∀ {first second} (id : NameId), related first second →
    related ((ScopeM.ensure definer id {.frame} false).run first).2
      ((ScopeM.ensure definer' id {.frame} false).run second).2

/-! ## Lookups -/

namespace ScopeM

variable {σ : Type} {related : Session σ → Session σ → Prop} {definer definer' : Definer σ}
  {first second : Session σ}

namespace Couples

variable (h : Couples definer definer' related)
include h

theorem junked (hrelated : related first second) :
    Coupled related (junked first) (junked second) :=
  ⟨(h.tree hrelated).nextName, h.junk hrelated⟩

theorem refused (hrelated : related first second) (span : Span) (name : String) :
    Coupled related (refused first span name) (refused second span name) :=
  h.junked (h.reporting _ _ _ hrelated)

theorem lookBack (name : String) {chain : List ScopeId} (hrelated : related first second)
    (hchain : first.tree.IsChain chain) :
    Coupled related ((lookBack name chain).run first) ((lookBack name chain).run second) := by
  induction chain with
  | nil => exact ⟨rfl, hrelated⟩
  | cons here outer ih =>
      have hformed := h.formed hrelated
      rw [run_lookBack_cons, run_lookBack_cons, (h.tree hrelated).meaning?]
      cases hmeaning : first.tree.meaning? here name with
      | some entry => cases entry <;> exact ⟨rfl, hrelated⟩
      | none =>
          obtain ⟨hsame, hback⟩ := ih (hchain.tail hformed)
          obtain ⟨found, after, hrun, hfound⟩ := lookBack_sound name hformed (hchain.tail hformed)
          simp only [hrun] at hsame hback ⊢
          rw [hsame]
          cases found with
          | forbidden => exact ⟨rfl, hback⟩
          | absent => exact ⟨rfl, hback⟩
          | name source =>
              obtain ⟨next, rest, rfl, hsource⟩ := hfound.entry source rfl
              have henclosing : (after.scope here).enclosing = next :: rest :=
                hchain.grows hfound.grows (by simp)
              have hnone : after.meaning? here name = none :=
                (hfound.elsewhere here name (hchain.not_mem hformed)).trans hmeaning
              dsimp only
              rw [((h.tree hback).scope here).delegates]
              refine ⟨congrArg Binding.name (h.tree hback).nextName, h.define hback ?_ ?_
                (fits_copy hfound.formed henclosing hsource) hnone⟩
              · split <;> simp
              · split <;> rfl

theorem childOf_of {id : NameId} {component : String} (hrelated : related first second)
    (hcreate : Coupled related ((createChild definer id component).run first)
      ((createChild definer' id component).run second)) :
    Coupled related ((childOf definer id component).run first)
      ((childOf definer' id component).run second) := by
  rw [run_childOf, run_childOf, (h.tree hrelated).child?]
  cases first.tree.child? id component with
  | some child => exact ⟨rfl, hrelated⟩
  | none => exact hcreate

variable [Preorder σ] (hsound : definer.Sound)
include hsound

/-- What a new child is inherited from is the same in both sessions, given that the names before it
can be given children. -/
theorem originOfChild {id : NameId} (component : String) (hrelated : related first second)
    (hid : id.index < first.tree.names.size)
    (hcreate : ∀ (source : NameId) (first second : Session σ), source.index < id.index →
      related first second → source.index < first.tree.names.size →
        Coupled related ((createChild definer source component).run first)
          ((createChild definer' source component).run second)) :
    Coupled related (originOfChild definer id component first)
      (originOfChild definer' id component second) := by
  have hinherited : ∀ (source : NameId) (made made' : Session σ), source.index < id.index →
      related made made' → source.index < made.tree.names.size →
        Coupled related ((inheritedChild definer source component).run made)
          ((inheritedChild definer' source component).run made') := by
    intro source made made' hlt hmade hsource
    have hensured := h.ensure source hmade
    have hgrows := (ensure_evolves hsound source {.frame} false (h.formed hmade)).grows
    exact h.childOf_of hensured (hcreate source _ _ hlt hensured
      (Nat.lt_of_lt_of_le hsource hgrows.size_names))
  have horigin := ((h.tree hrelated).name id).origin
  unfold ScopeM.originOfChild
  generalize (first.tree.name id).origin = origin at horigin ⊢
  generalize (second.tree.name id).origin = origin' at horigin ⊢
  cases horigin with
  | free known known' => exact ⟨rfl, hrelated⟩
  | replaced known known' => exact ⟨rfl, hrelated⟩
  | bound node known known' => exact ⟨rfl, hrelated⟩
  | junk => exact ⟨rfl, hrelated⟩
  | masked source mask mask' =>
      dsimp only
      rw [(h.tree hrelated).hasChild]
      split
      · next hlt =>
        have hfound := hinherited source _ _ hlt.1 hrelated (Nat.lt_trans hlt.1 hid)
        exact ⟨congrArg (Origin.masked · .any) hfound.value, hfound.related⟩
      · exact ⟨rfl, hrelated⟩
  | delegated source =>
      dsimp only
      rw [(h.tree hrelated).hasChild]
      split
      · next hlt =>
        have hsource := Nat.lt_trans hlt hid
        -- the source is given the child first, and in both sessions if it has none
        have hmade : related
              (if first.tree.hasChild source component = true then first
                else ((createChild definer source component).run first).2)
              (if first.tree.hasChild source component = true then second
                else ((createChild definer' source component).run second).2) ∧
            source.index < (if first.tree.hasChild source component = true then first
              else ((createChild definer source component).run first).2).tree.names.size := by
          split
          · exact ⟨hrelated, hsource⟩
          · have hgrows := (createChild_reaches hsound source component (h.formed hrelated)
              hsource).evolves.grows
            exact ⟨(hcreate source _ _ hlt hrelated hsource).related,
              Nat.lt_of_lt_of_le hsource hgrows.size_names⟩
        generalize (if first.tree.hasChild source component = true then first
          else ((createChild definer source component).run first).2) = made at hmade ⊢
        generalize (if first.tree.hasChild source component = true then second
          else ((createChild definer' source component).run second).2) = made' at hmade ⊢
        obtain ⟨hmade, hsize⟩ := hmade
        rw [(h.tree hmade).hasChild]
        split
        · have hfound := hinherited source _ _ hlt hmade hsize
          exact ⟨congrArg Origin.delegated hfound.value, hfound.related⟩
        · exact ⟨rfl, hmade⟩
      · exact ⟨rfl, hrelated⟩

theorem createChild (id : NameId) (component : String) (hrelated : related first second)
    (hid : id.index < first.tree.names.size) :
    Coupled related ((createChild definer id component).run first)
      ((createChild definer' id component).run second) := by
  induction id using NameId.strongInduction generalizing first second with
  | step id ih =>
      obtain ⟨hsame, horigin⟩ := h.originOfChild hsound component hrelated hid
        fun source _ _ hlt hrelated hsource =>
          ih source hlt hrelated hsource
      have hformed :=
        (createChild_reaches hsound id component (h.formed hrelated) hid).evolves.formed
      have hbound := definition?_originOfChild definer id component first
      have hrecord := (h.tree hrelated).name id
      rw [run_createChild] at hformed
      rw [run_createChild, run_createChild]
      generalize ScopeM.originOfChild definer id component first = found at *
      generalize ScopeM.originOfChild definer' id component second = found' at *
      dsimp only [ScopeM.addChild]
      rw [hsame, hrecord.path, hrecord.scope?]
      exact ⟨(h.tree horigin).nextName, h.addChild horigin hformed hbound⟩

theorem childOf (id : NameId) (component : String) (hrelated : related first second)
    (hid : id.index < first.tree.names.size) :
    Coupled related ((childOf definer id component).run first)
      ((childOf definer' id component).run second) :=
  h.childOf_of hrelated (h.createChild hsound id component hrelated hid)

theorem drill (components : List String) (id : NameId) (hrelated : related first second)
    (hlive : first.tree.isJunk id = false) :
    Coupled related ((drill definer id components).run first)
      ((drill definer' id components).run second) := by
  induction components generalizing id first second with
  | nil => exact ⟨rfl, hrelated⟩
  | cons component rest ih =>
      have hensured := h.ensure id hrelated
      have hgrows := (ensure_evolves hsound id {.frame} false (h.formed hrelated)).grows
      have hstill := hgrows.not_junk hlive
      have hsize := ScopeTree.lt_size_of_not_junk hstill
      have hchild := h.childOf hsound id component hensured hsize
      obtain ⟨hevolves, hfound⟩ :=
        childOf_reaches hsound id component (h.formed hensured) hsize
      obtain ⟨-, -, hjunk, -⟩ := hevolves.formed.child id component _ hfound
      rw [hevolves.grows.not_junk hstill] at hjunk
      rw [run_drill_cons, run_drill_cons]
      dsimp only
      rw [hchild.value]
      exact ih _ hchild.related hjunk

theorem lookupAlong (component : String) (rest : List String) (span : Span) {chain : List ScopeId}
    (hrelated : related first second) (hchain : first.tree.IsChain chain) :
    Coupled related ((lookupAlong definer component rest span chain).run first)
      ((lookupAlong definer' component rest span chain).run second) := by
  induction chain generalizing first second with
  | nil => exact h.junked hrelated
  | cons here outer ih =>
      have hformed := h.formed hrelated
      rw [run_lookupAlong_cons, run_lookupAlong_cons, (h.tree hrelated).meaning?]
      cases hmeaning : first.tree.meaning? here component with
      | some entry =>
          cases entry with
          | some id =>
              exact h.drill hsound rest id hrelated (hformed.entry here component id hmeaning).1
          | none => exact h.refused hrelated span component
      | none =>
          have hgrows := (lookedAhead_evolves hsound component rest span hformed hchain).grows
          -- both sessions look ahead, or neither does: a scope delegates in both or in neither
          have hahead : Coupled related
              (lookedAhead definer component rest span here outer first)
              (lookedAhead definer' component rest span here outer second) := by
            unfold lookedAhead
            rw [((h.tree hrelated).scope here).delegates]
            split
            · have hfound := ih hrelated (hchain.tail hformed)
              refine ⟨?_, hfound.related⟩
              dsimp only
              rw [hfound.value, (h.tree hfound.related).isJunk]
            · exact ⟨rfl, hrelated⟩
          dsimp only
          generalize lookedAhead definer component rest span here outer first = ahead at *
          generalize lookedAhead definer' component rest span here outer second = ahead' at *
          obtain ⟨hwrong, hahead⟩ := hahead
          have hchain' := hchain.grows hgrows
          rw [hwrong]
          split
          · exact h.junked hahead
          · obtain ⟨hsame, hback⟩ := h.lookBack component hahead hchain'
            obtain ⟨found, after, hrun, hlooked⟩ :=
              lookBack_sound component (h.formed hahead) hchain'
            simp only [hrun] at hsame hback ⊢
            rw [hsame]
            cases found with
            | name id =>
                obtain ⟨scope, others, -, hentry⟩ := hlooked.entry id rfl
                exact h.drill hsound rest id hback
                  (hlooked.formed.entry scope component id hentry).1
            | forbidden => exact h.refused hback span component
            | absent =>
                have hnone := (ScopeTree.nearest?_cons_eq_none.mp (hlooked.absent rfl)).1
                have hdefined := h.define hback (by simp) rfl
                  (after.fits_free here component) hnone
                have hlive := (@define_evolves _ _ here component (ahead.2.withTree after)
                  hlooked.formed hnone).2.1
                dsimp only
                rw [(h.tree hback).nextName]
                exact h.drill hsound rest _ hdefined hlive

/-- Two lookups side by side come to the same name. -/
theorem lookup (scope : ScopeId) (path : List String) (span : Span)
    (hrelated : related first second) :
    Coupled related ((lookup definer scope path span).run first)
      ((lookup definer' scope path span).run second) := by
  rw [run_lookup, run_lookup]
  cases path with
  | nil => exact h.junked (h.reporting _ _ _ hrelated)
  | cons component rest =>
      dsimp only
      rw [(h.tree hrelated).chain]
      exact h.lookupAlong hsound component rest span hrelated (first.tree.isChain_chain scope)

end Couples

end ScopeM

end FrameLang
