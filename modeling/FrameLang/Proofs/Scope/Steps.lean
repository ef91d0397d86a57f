import FrameLang.Proofs.Scope.Bearers
import FrameLang.Proofs.Scope.Lookups

/-!
# The steps of a run

Every operation on a scope tree is a sequence of small changes (`Session.Step`): a
demand is noted with one record, a new record takes its place in a scope, something
is reported.  A `Session.Runs` is any number of steps.  A step keeps a tree well
formed (`Session.Step.formed`), and it keeps every record, of which more may come to
be known (`Session.Step.retains`).

Definitions take part in a run by means of steps of their own.  What they do may be
anything that operations can do, declarations included (`Session.Operated`): they may
bind a name that a lookup is in the middle of looking for, or forbid it.  So entries
of scopes need not stay what they are, and what a lookup has found out about a scope
may no longer be true when a definition has been asked.

## Strategy

A step says under which conditions it may be made, and these are just those that keep
a tree well formed.  Each operation then comes with one lemma that it is a run
(`ScopeM.follow_runs` and so on), by the recursion of the operation.  Whatever has to
be known about the names involved outlasts the definitions, since records are kept.

A lookup goes from name to name, and in between it demands that they are frames.  The
recursions of a lookup are gone through once, for anything that is kept by what a lookup
does by itself (`Session.Making`) and by what comes of these demands
(`ScopeM.Sustains.lookup`); to be reached by a run is one such thing.
-/

namespace FrameLang

/-! ## Steps -/

namespace ScopeTree

/-- Records and scopes are added, and those that are there stay, although a scope may change its
mind about what a name means. -/
structure Retains (before after : ScopeTree) : Prop where
  size_names : before.names.size ≤ after.names.size
  size_scopes : before.scopes.size ≤ after.scopes.size
  name : ∀ id, id.index < before.names.size → (before.name id).Grows (after.name id)
  enclosing : ∀ id, id.index < before.scopes.size →
    (after.scope id).enclosing = (before.scope id).enclosing

end ScopeTree

namespace Session

variable {σ : Type}

/-- A single change of a session.  How the state of the definitions may change in one step is
left to `own`. -/
inductive Step (own : σ → σ → Prop) (before : Session σ) : Session σ → Prop where
  | noting (event : Event) : Step own before (before.noting event)
  | reporting (reporter : Reporter) : Step own before (before.reporting reporter)
  | own {defs : σ} (h : own before.defs defs) : Step own before (before.withDefs defs)
  | demanding (id : NameId) (demanded : Kinds) (unbox : Bool) :
      Step own before (before.demanding id demanded unbox)
  | proving (id : NameId) (proven : Kinds) : Step own before (before.proving id proven)
  | weighing (scope : ScopeId) (node : NodeId) {entry : Intrinsic}
      (hkinds : ∀ old, (before.tree.scope scope).intrinsics.find? node = some old →
        entry.kinds ⊆ old.kinds) :
      Step own before (before.withTree (before.tree.setIntrinsic scope node entry))
  | junk : Step own before (before.withTree (before.tree.addName .junk))
  | define {scope : ScopeId} {name : String} {origin : Origin} (hlive : origin ≠ .junk)
      (hfits : before.tree.Fits (.new name (some scope) origin)) :
      Step own before (before.withTree (before.tree.define scope name origin))
  | addChild {id : NameId} {component : String} {record : NameRecord} {origin : Origin}
      (hid : id.index < before.tree.names.size)
      (hpath : (before.tree.name id).path = record.path)
      (hscope : (before.tree.name id).scope? = record.scope?)
      (hfits : before.tree.Fits (.new ((before.tree.name id).path ++ "." ++ component)
        (before.tree.name id).scope? origin))
      (hjunk : origin = .junk ↔ (before.tree.name id).origin = .junk) :
      Step own before (ScopeM.addChild before id component record origin)
  | forbid (scope : ScopeId) (name : String) :
      Step own before (before.withTree (before.tree.forbid scope name))
  | openRoot (span : Span) (topLevel : Bool) :
      Step own before (before.withTree (before.tree.openRoot span topLevel))
  | openInside {outer : ScopeId} (houter : outer.index < before.tree.scopes.size) (span : Span)
      (delegates : Bool) :
      Step own before (before.withTree (before.tree.openInside outer span delegates))

/-- Any number of steps. -/
abbrev Runs (own : σ → σ → Prop) : Session σ → Session σ → Prop :=
  Relation.ReflTransGen (Step own)

/-- A change that a lookup makes by itself, in between the demands that it makes on names. -/
inductive Making (before : Session σ) : Session σ → Prop where
  | reporting (error : Diagnostic) : Making before (before.reporting (before.reporter.push error))
  | junk : Making before (before.withTree (before.tree.addName .junk))
  | define {scope : ScopeId} {name : String} {origin : Origin}
      (hnew : before.tree.meaning? scope name = none) (hlive : origin ≠ .junk)
      (hunbound : origin.definition? = none)
      (hfits : before.tree.Fits (.new name (some scope) origin)) :
      Making before (before.withTree (before.tree.define scope name origin))
  | addChild {id : NameId} {component : String} {record : NameRecord} {origin : Origin}
      (hid : id.index < before.tree.names.size)
      (hpath : (before.tree.name id).path = record.path)
      (hscope : (before.tree.name id).scope? = record.scope?)
      (hunbound : origin.definition? = none)
      (hfits : before.tree.Fits (.new ((before.tree.name id).path ++ "." ++ component)
        (before.tree.name id).scope? origin))
      (hjunk : origin = .junk ↔ (before.tree.name id).origin = .junk) :
      Making before (ScopeM.addChild before id component record origin)

/-- Any number of operations, one after the other.  An operation that asks definitions may be
given whatever definer, as long as that one gets by with operations itself.  It may rely on every
record that was there when it was handed over. -/
inductive Operated (own : σ → σ → Prop) : Session σ → Session σ → Prop where
  | refl (session : Session σ) : Operated own session session
  | trans {first second third : Session σ} (h : Operated own first second)
      (h' : Operated own second third) : Operated own first third
  | noting (session : Session σ) (event : Event) : Operated own session (session.noting event)
  | reporting (session : Session σ) (reporter : Reporter) :
      Operated own session (session.reporting reporter)
  | own {session : Session σ} {defs : σ} (h : own session.defs defs) :
      Operated own session (session.withDefs defs)
  | openRoot (session : Session σ) (span : Span) (topLevel : Bool) :
      Operated own session (session.withTree (session.tree.openRoot span topLevel))
  | openInside (session : Session σ) {outer : ScopeId}
      (houter : outer.index < session.tree.scopes.size) (span : Span) (delegates : Bool) :
      Operated own session (session.withTree (session.tree.openInside outer span delegates))
  | bind {session : Session σ} {scope : ScopeId} {name : String} {node : NodeId} {tree : ScopeTree}
      (h : session.tree.bind? scope name node = some tree) :
      Operated own session (session.withTree tree)
  | nameReplaced (session : Session σ) (scope : ScopeId) (name : String) :
      Operated own session (session.withTree (session.tree.nameReplaced scope name))
  | forbid (session : Session σ) (scope : ScopeId) (name : String) :
      Operated own session (session.withTree (session.tree.forbid scope name))
  | junk (session : Session σ) : Operated own session (ScopeM.junk.run session).2
  | ensureIntrinsic (session : Session σ) (scope : ScopeId) (node : NodeId) (demanded : Kinds)
      (unbox : Bool) (span : Span) :
      Operated own session ((ScopeM.ensureIntrinsic scope node demanded unbox span).run session).2
  | ensure (session : Session σ) (definer : Definer σ)
      (hdefiner : ∀ node demanded unbox (later : Session σ), later.tree.Formed →
        session.tree.Retains later.tree →
          Operated own later ((definer node demanded unbox).run later).2)
      (id : NameId) (demanded : Kinds) (unbox : Bool) :
      Operated own session ((ScopeM.ensure definer id demanded unbox).run session).2
  | drill (session : Session σ) (definer : Definer σ)
      (hdefiner : ∀ node demanded unbox (later : Session σ), later.tree.Formed →
        session.tree.Retains later.tree →
          Operated own later ((definer node demanded unbox).run later).2)
      {id : NameId} (hid : id.index < session.tree.names.size) (components : List String) :
      Operated own session ((ScopeM.drill definer id components).run session).2
  | lookup (session : Session σ) (definer : Definer σ)
      (hdefiner : ∀ node demanded unbox (later : Session σ), later.tree.Formed →
        session.tree.Retains later.tree →
          Operated own later ((definer node demanded unbox).run later).2)
      (scope : ScopeId) (path : List String) (span : Span) :
      Operated own session ((ScopeM.lookup definer scope path span).run session).2

end Session

namespace ScopeTree

variable {before after third tree : ScopeTree}

/-! ## What is retained -/

theorem Grows.retains (h : before.Grows after) : before.Retains after :=
  ⟨h.size_names, h.size_scopes, h.name, fun id hid => (h.scope id hid).enclosing⟩

theorem Retains.refl (tree : ScopeTree) : tree.Retains tree := (Grows.refl tree).retains

theorem Retains.trans (h : before.Retains after) (h' : after.Retains third) :
    before.Retains third where
  size_names := Nat.le_trans h.size_names h'.size_names
  size_scopes := Nat.le_trans h.size_scopes h'.size_scopes
  name id hid := (h.name id hid).trans (h'.name id (Nat.lt_of_lt_of_le hid h.size_names))
  enclosing id hid :=
    (h'.enclosing id (Nat.lt_of_lt_of_le hid h.size_scopes)).trans (h.enclosing id hid)

theorem Retains.not_junk (h : before.Retains after) {id : NameId}
    (hid : before.isJunk id = false) : after.isJunk id = false := by
  have hgrows := h.name id (lt_size_of_not_junk hid)
  rw [isJunk, hgrows.isJunk]
  exact hid

theorem Retains.chain (h : before.Retains after) {scope : ScopeId}
    (hscope : scope.index < before.scopes.size) : after.chain scope = before.chain scope :=
  congrArg (List.cons scope) (h.enclosing scope hscope)

/-- A scope stays inside of whatever it is inside of. -/
theorem Retains.chain_subset (h : before.Retains after) (scope : ScopeId) :
    before.chain scope ⊆ after.chain scope := by
  intro outer houter
  rcases List.mem_cons.mp houter with rfl | hmem
  · exact List.mem_cons_self
  · obtain ⟨next, rest, henclosing⟩ := List.exists_cons_of_ne_nil (List.ne_nil_of_mem hmem)
    rwa [h.chain (lt_size_of_enclosing henclosing)]

theorem IsChain.retains (h : before.Retains after) {chain : List ScopeId}
    (hchain : before.IsChain chain) : after.IsChain chain := by
  match chain with
  | [] => trivial
  | [_] => exact fun hne => absurd rfl hne
  | here :: outer :: rest =>
      have henclosing := hchain (by simp)
      intro _
      rw [h.enclosing here (lt_size_of_enclosing henclosing), henclosing]

/-- What a scope comes to say of a name does not touch any record. -/
theorem retains_setEntry (tree : ScopeTree) (scope : ScopeId) (name : String)
    (entry : Option NameId) : tree.Retains (tree.setEntry scope name entry) := by
  refine ⟨Nat.le_refl _, Nat.le_of_eq (size_scopes_modifyScope ..).symm, fun _ _ => .refl _,
    fun other _ => ?_⟩
  unfold setEntry
  rw [scope_recording, scope_modifyScope]
  split
  · next heq => rw [← heq.1]
  · rfl

theorem retains_define (tree : ScopeTree) (scope : ScopeId) (name : String) (origin : Origin) :
    tree.Retains (tree.define scope name origin) :=
  (grows_addName ..).retains.trans (retains_setEntry ..)

theorem retains_openRoot (tree : ScopeTree) (span : Span) (topLevel : Bool) :
    tree.Retains (tree.openRoot span topLevel) := by
  refine ⟨Nat.le_refl _, by simp [openRoot], fun _ _ => .refl _, fun id hid => ?_⟩
  rw [scope_openRoot, if_neg]
  rintro rfl
  exact Nat.lt_irrefl _ hid

theorem retains_openInside {outer : ScopeId} (houter : outer.index < tree.scopes.size)
    (span : Span) (delegates : Bool) :
    tree.Retains (tree.openInside outer span delegates) := by
  refine ⟨Nat.le_refl _, by simp, fun _ _ => .refl _, fun id hid => ?_⟩
  rw [scope_openInside houter, if_neg]
  · split
    · next heq => rw [heq]
    · rfl
  · rintro rfl
    exact Nat.lt_irrefl _ hid

end ScopeTree

namespace Session

variable {σ : Type} {own : σ → σ → Prop} {before after : Session σ}

/-! ## What steps keep -/

theorem Step.formed (h : Step own before after) (hformed : before.tree.Formed) :
    after.tree.Formed := by
  cases h with
  | noting event => exact hformed
  | reporting reporter => exact hformed
  | own h => exact hformed
  | demanding id demanded unbox =>
      exact hformed.modifyName (NameRecord.grows_afterDemand ..)
        (NameRecord.children_afterDemand ..)
  | proving id proven => exact hformed.modifyName (NameRecord.grows_afterProof ..) rfl
  | weighing scope node hkinds => exact hformed.setIntrinsic hkinds
  | junk => exact hformed.addName (ScopeTree.fits_junk ..)
  | define hlive hfits => exact hformed.define hlive hfits
  | addChild hid hpath hscope hfits hjunk =>
      exact ScopeM.formed_addChild hformed hid ⟨hpath, hscope⟩ hfits hjunk
  | forbid scope name => exact hformed.setEntry fun _ heq => by cases heq
  | openRoot span topLevel => exact hformed.openRoot span topLevel
  | openInside houter span delegates => exact hformed.openInside houter span delegates

theorem Step.retains (h : Step own before after) : before.tree.Retains after.tree := by
  cases h with
  | noting event => exact .refl _
  | reporting reporter => exact .refl _
  | own h => exact .refl _
  | demanding id demanded unbox =>
      exact (ScopeTree.grows_modifyName (NameRecord.grows_afterDemand ..)).retains
  | proving id proven => exact (ScopeTree.grows_modifyName (NameRecord.grows_afterProof ..)).retains
  | weighing scope node hkinds => exact (ScopeTree.grows_setIntrinsic hkinds).retains
  | junk => exact (ScopeTree.grows_addName ..).retains
  | define hlive hfits => exact ScopeTree.retains_define ..
  | addChild hid hpath hscope hfits hjunk =>
      exact ((ScopeTree.grows_addName ..).trans (ScopeTree.grows_setChild ..)).retains
  | forbid scope name => exact ScopeTree.retains_setEntry ..
  | openRoot span topLevel => exact ScopeTree.retains_openRoot ..
  | openInside houter span delegates => exact ScopeTree.retains_openInside houter span delegates

theorem Making.step (h : before.Making after) : before.Step own after := by
  cases h with
  | reporting error => exact .reporting _
  | junk => exact .junk
  | define hnew hlive hunbound hfits => exact .define hlive hfits
  | addChild hid hpath hscope hunbound hfits hjunk =>
      exact .addChild hid hpath hscope hfits hjunk

theorem Making.formed (h : before.Making after) (hformed : before.tree.Formed) :
    after.tree.Formed :=
  have hstep : before.Step (fun _ _ => False) after := h.step
  hstep.formed hformed

theorem Making.retains (h : before.Making after) : before.tree.Retains after.tree :=
  have hstep : before.Step (fun _ _ => False) after := h.step
  hstep.retains

theorem Making.defs (h : before.Making after) : after.defs = before.defs := by
  cases h <;> rfl

theorem Making.trace (h : before.Making after) : after.trace = before.trace := by
  cases h <;> rfl

/-- The names that are there already are not touched, but for the names that are longer. -/
theorem Making.origin (h : before.Making after) {id : NameId}
    (hid : id.index < before.tree.names.size) :
    (after.tree.name id).origin = (before.tree.name id).origin := by
  cases h with
  | reporting error => rfl
  | junk => exact congrArg NameRecord.origin (ScopeTree.name_addName_of_lt _ _ hid)
  | define hnew hlive hunbound hfits =>
      exact congrArg NameRecord.origin (ScopeTree.name_addName_of_lt _ _ hid)
  | @addChild parent component record origin =>
      have hold := ScopeTree.name_addName_of_lt before.tree
        (.new (record.path ++ "." ++ component) record.scope? origin) hid
      have hchild : ((ScopeM.addChild before parent component record origin).tree.name id).origin =
          ((before.tree.addName (.new (record.path ++ "." ++ component) record.scope?
            origin)).name id).origin := by
        change (((before.tree.addName _).modifyName parent _).name id).origin = _
        rw [ScopeTree.name_modifyName]
        split
        · next heq => rw [heq.1]
        · rfl
      rw [hchild, hold]

theorem Making.evolves [Preorder σ] (h : before.Making after) (hformed : before.tree.Formed) :
    before.Evolves after := by
  cases h with
  | reporting error => exact .reporting hformed (Reporter.grows_push ..)
  | junk => exact .tree (hformed.addName (ScopeTree.fits_junk ..)) (ScopeTree.grows_addName ..)
  | define hnew hlive hunbound hfits =>
      exact .tree (hformed.define hlive hfits) (ScopeTree.grows_define hnew _)
  | addChild hid hpath hscope hunbound hfits hjunk =>
      exact ScopeM.addChild_evolves hformed hid ⟨hpath, hscope⟩ hfits hjunk

theorem Runs.formed (h : before.Runs own after) (hformed : before.tree.Formed) :
    after.tree.Formed := by
  induction h with
  | refl => exact hformed
  | tail _ hstep ih => exact hstep.formed ih

theorem Runs.retains (h : before.Runs own after) : before.tree.Retains after.tree := by
  induction h with
  | refl => exact .refl _
  | tail _ hstep ih => exact ih.trans hstep.retains

end Session

/-! ## What lookups sustain -/

namespace ScopeM

variable {σ : Type} {session : Session σ}

/-- Something that is true of well-formed sessions, and that stays true whatever lookups do by
themselves and whatever comes of the demands that they make on names. -/
structure Sustains (definer : Definer σ) (reached : Session σ → Prop) : Prop where
  formed : ∀ session, reached session → session.tree.Formed
  making : ∀ before after, reached before → before.Making after → reached after
  ensure : ∀ session id, reached session → id.index < session.tree.names.size →
    reached ((ensure definer id {.frame} false).run session).2 ∧
      session.tree.Retains ((ensure definer id {.frame} false).run session).2.tree

/-- A session is reached, and whatever there was in an earlier one is still there. -/
def Later (reached : Session σ → Prop) (before after : Session σ) : Prop :=
  reached after ∧ before.tree.Retains after.tree

/-- A name is found in a session that is reached. -/
structure Found (reached : Session σ → Prop) (before : Session σ) (found : NameId × Session σ) :
    Prop where
  reached : reached found.2
  retains : before.tree.Retains found.2.tree
  lt_size : found.1.index < found.2.tree.names.size

variable {definer : Definer σ} {reached : Session σ → Prop}

theorem Found.after {before middle : Session σ} {found : NameId × Session σ}
    (h : before.tree.Retains middle.tree) (hfound : Found reached middle found) :
    Found reached before found :=
  ⟨hfound.reached, h.trans hfound.retains, hfound.lt_size⟩

/-- What a new child of a name gets its value from is never a definition. -/
theorem definition?_originOfChild (definer : Definer σ) (id : NameId) (component : String)
    (session : Session σ) : (originOfChild definer id component session).1.definition? = none := by
  unfold originOfChild
  cases (session.tree.name id).origin with
  | masked source mask => dsimp only; split <;> rfl
  | delegated source =>
      dsimp only
      split
      · generalize (if session.tree.hasChild source component = true then session
          else ((createChild definer source component).run session).2) = made
        split <;> rfl
      · rfl
  | _ => rfl

namespace Sustains

variable (h : Sustains definer reached)
include h

theorem junked (hreached : reached session) : Found reached session (junked session) :=
  ⟨h.making _ _ hreached .junk, (ScopeTree.grows_addName ..).retains,
    by simp [ScopeM.junked, ScopeTree.nextName]⟩

theorem refused (hreached : reached session) (span : Span) (name : String) :
    Found reached session (refused session span name) :=
  have hreported := h.making session (session.reporting (session.reporter.forbiddenName span name))
    hreached (.reporting _)
  have hfound := h.junked hreported
  ⟨hfound.reached, hfound.retains, hfound.lt_size⟩

theorem lookBack (name : String) {chain : List ScopeId} (hreached : reached session)
    (hchain : session.tree.IsChain chain) : reached ((lookBack name chain).run session).2 := by
  induction chain with
  | nil => exact hreached
  | cons here outer ih =>
      have hformed := h.formed session hreached
      have hnotmem := hchain.not_mem hformed
      rw [run_lookBack_cons]
      cases hmeaning : session.tree.meaning? here name with
      | some entry => cases entry <;> exact hreached
      | none =>
          have hback := ih (hchain.tail hformed)
          obtain ⟨found, after, hrun, hfound⟩ := lookBack_sound name hformed (hchain.tail hformed)
          simp only [hrun] at hback ⊢
          cases found with
          | forbidden => exact hback
          | absent => exact hback
          | name source =>
              obtain ⟨next, rest, rfl, hsource⟩ := hfound.entry source rfl
              have henclosing : (after.scope here).enclosing = next :: rest :=
                hchain.grows hfound.grows (by simp)
              have hnew : after.meaning? here name = none := by
                rw [hfound.elsewhere here name hnotmem, hmeaning]
              refine h.making _ _ hback (.define hnew ?_ ?_
                (fits_copy hfound.formed henclosing hsource))
              · split <;> simp
              · split <;> rfl

/-- A run that leads to the child of a name sustains what is true. -/
theorem childOf_of {id : NameId} {component : String} (hreached : reached session)
    (hcreate : Found reached session ((createChild definer id component).run session) ∧
      ((createChild definer id component).run session).2.tree.child? id component =
        some ((createChild definer id component).run session).1) :
    Found reached session ((childOf definer id component).run session) ∧
      ((childOf definer id component).run session).2.tree.child? id component =
        some ((childOf definer id component).run session).1 := by
  rw [run_childOf]
  cases hchild : session.tree.child? id component with
  | some child =>
      obtain ⟨-, hsize, -⟩ := (h.formed session hreached).child id component child hchild
      exact ⟨⟨hreached, .refl _, hsize⟩, hchild⟩
  | none => exact hcreate

theorem createChild (id : NameId) (component : String) (hreached : reached session)
    (hid : id.index < session.tree.names.size) :
    Found reached session ((createChild definer id component).run session) ∧
      ((createChild definer id component).run session).2.tree.child? id component =
        some ((createChild definer id component).run session).1 := by
  induction id using NameId.strongInduction generalizing session with
  | step id ih =>
      have hbefore := fun source (hlt : source.index < id.index) (session : Session σ)
        (hreached : reached session) hsource =>
          ih source hlt hreached hsource
      have hmade : ∀ source, source.index < id.index →
          Later reached session ((ScopeM.createChild definer source component).run session).2 :=
        fun source hlt =>
          have hcreated := (hbefore source hlt session hreached (Nat.lt_trans hlt hid)).1
          ⟨hcreated.reached, hcreated.retains⟩
      -- the child of the source, once the demands that come with inheriting it have been made
      have hinherited : ∀ source made, source.index < id.index → Later reached session made →
          Later reached session ((inheritedChild definer source component).run made).2 ∧
            ((inheritedChild definer source component).run made).2.tree.child? source component =
              some ((inheritedChild definer source component).run made).1 := by
        intro source made hlt hmade
        have hsize := Nat.lt_of_lt_of_le (Nat.lt_trans hlt hid) hmade.2.size_names
        obtain ⟨hensured, hkept⟩ := h.ensure made source hmade.1 hsize
        obtain ⟨hfound, hchild⟩ := h.childOf_of hensured
          (hbefore source hlt _ hensured (Nat.lt_of_lt_of_le hsize hkept.size_names))
        exact ⟨⟨hfound.reached, (hmade.2.trans hkept).trans hfound.retains⟩, hchild⟩
      have horigin : Later reached session (originOfChild definer id component session).2 ∧ _ :=
        originOfChild_reached component (h.formed session hreached) ⟨hreached, .refl _⟩
          (fun after hafter => h.formed after hafter.1) (fun _ hafter => hafter.2.name id hid)
          hmade hinherited
      obtain ⟨⟨horigin, hretains⟩, hfits, hjunk⟩ := horigin
      have hunbound := definition?_originOfChild definer id component session
      rw [run_createChild]
      dsimp only
      generalize originOfChild definer id component session = origin at *
      have hsize := Nat.lt_of_lt_of_le hid hretains.size_names
      have hrecord := hretains.name id hid
      have hadded := Session.Making.addChild hsize hrecord.path hrecord.scope? hunbound hfits hjunk
      have hchild : (addChild origin.2 id component (session.tree.name id) origin.1).tree.child? id
          component = some origin.2.tree.nextName :=
        (child?_addChild hsize ..).trans (if_pos ⟨rfl, rfl⟩)
      obtain ⟨-, hlt, -⟩ := (hadded.formed (h.formed _ horigin)).child _ _ _ hchild
      exact ⟨⟨h.making _ _ horigin hadded, hretains.trans hadded.retains, hlt⟩, hchild⟩

theorem drill (components : List String) (id : NameId) (hreached : reached session)
    (hid : id.index < session.tree.names.size) :
    Found reached session ((drill definer id components).run session) := by
  induction components generalizing id session with
  | nil => exact ⟨hreached, .refl _, hid⟩
  | cons component rest ih =>
      obtain ⟨hensured, hkept⟩ := h.ensure session id hreached hid
      have hsize := Nat.lt_of_lt_of_le hid hkept.size_names
      obtain ⟨hfound, -⟩ := h.childOf_of hensured (h.createChild id component hensured hsize)
      rw [run_drill_cons]
      exact (ih _ hfound.reached hfound.lt_size).after (hkept.trans hfound.retains)

theorem lookupAlong (first : String) (rest : List String) (span : Span) {chain : List ScopeId}
    (hreached : reached session) (hchain : session.tree.IsChain chain) :
    Found reached session ((lookupAlong definer first rest span chain).run session) := by
  -- whatever has been looked up so far, an entry of a scope can be drilled down from
  have hdrill : ∀ (made : Session σ) (scope : ScopeId) (id : NameId), reached made →
      made.tree.meaning? scope first = some (some id) →
        Found reached made ((ScopeM.drill definer id rest).run made) :=
    fun made scope id hmade hmeaning => h.drill rest id hmade
      (ScopeTree.lt_size_of_not_junk ((h.formed made hmade).entry scope first id hmeaning).1)
  induction chain with
  | nil => exact h.junked hreached
  | cons here outer ih =>
      have hformed := h.formed session hreached
      rw [run_lookupAlong_cons]
      cases hmeaning : session.tree.meaning? here first with
      | some entry =>
          cases entry with
          | some id => exact hdrill session here id hreached hmeaning
          | none => exact h.refused hreached span first
      | none =>
          have hahead : reached (lookedAhead definer first rest span here outer session).2 ∧
              session.tree.Retains
                (lookedAhead definer first rest span here outer session).2.tree := by
            unfold lookedAhead
            split
            · have hfound := ih (hchain.tail hformed)
              exact ⟨hfound.reached, hfound.retains⟩
            · exact ⟨hreached, .refl _⟩
          dsimp only
          generalize lookedAhead definer first rest span here outer session = ahead at hahead ⊢
          obtain ⟨hahead, hkept⟩ := hahead
          have hchain' := hchain.retains hkept
          split
          · exact (h.junked hahead).after hkept
          · have hback := h.lookBack first hahead hchain'
            obtain ⟨found, after, hrun, hlooked⟩ := lookBack_sound first (h.formed _ hahead) hchain'
            rw [hrun] at hback ⊢
            have hretains : session.tree.Retains after :=
              hkept.trans (ScopeTree.Grows.retains hlooked.grows)
            cases found with
            | name id =>
                obtain ⟨scope, others, -, hentry⟩ := hlooked.entry id rfl
                exact (hdrill _ scope id hback hentry).after hretains
            | forbidden => exact (h.refused hback span first).after hretains
            | absent =>
                have hnew := (ScopeTree.nearest?_cons_eq_none.mp (hlooked.absent rfl)).1
                have hdefined := h.making _ _ hback
                  (.define hnew (by simp) rfl (after.fits_free here first))
                have hsize : (after.define here first (.free .any)).names.size =
                    after.names.size + 1 := ScopeTree.size_names_addName ..
                refine (h.drill rest _ hdefined ?_).after
                  (hretains.trans (ScopeTree.retains_define ..))
                exact Nat.lt_of_lt_of_eq (Nat.lt_succ_self after.names.size) hsize.symm

/-- A lookup sustains what is true, and it leads to a name. -/
theorem lookup (scope : ScopeId) (path : List String) (span : Span) (hreached : reached session) :
    Found reached session ((lookup definer scope path span).run session) := by
  rw [run_lookup]
  cases path with
  | nil =>
      have hreported := h.making session (session.reporting (session.reporter.emptyLookup span))
        hreached (.reporting _)
      have hfound := h.junked hreported
      exact ⟨hfound.reached, hfound.retains, hfound.lt_size⟩
  | cons first rest =>
      exact h.lookupAlong first rest span hreached (session.tree.isChain_chain scope)

end Sustains

end ScopeM

/-! ## Runs of operations -/

/-- A definer that does no more than make steps, in every session that has come to be from a given
tree. -/
def Definer.Acts {σ : Type} (own : σ → σ → Prop) (base : ScopeTree) (definer : Definer σ) : Prop :=
  ∀ node demanded unbox (session : Session σ), session.tree.Formed → base.Retains session.tree →
    session.Runs own ((definer node demanded unbox).run session).2

namespace ScopeM

variable {σ : Type} {own : σ → σ → Prop} {session : Session σ}

/-! ## Operations without definitions -/

theorem ensureIntrinsic_runs (scope : ScopeId) (node : NodeId) (demanded : Kinds) (unbox : Bool)
    (span : Span) (session : Session σ) :
    session.Runs own ((ensureIntrinsic scope node demanded unbox span).run session).2 := by
  -- an entry that is there already is the one that is narrowed
  have hentry : ∀ old, (session.tree.scope scope).intrinsics.find? node = some old →
      ((session.tree.scope scope).intrinsics.find? node).getD ⟨demanded, unbox⟩ = old := by
    intro old hold
    rw [hold]
    rfl
  rw [run_ensureIntrinsic]
  generalize ((session.tree.scope scope).intrinsics.find? node).getD ⟨demanded, unbox⟩ = entry
    at hentry
  dsimp only
  split
  · refine .single (.weighing scope node fun old hold => ?_)
    rw [hentry old hold, Kinds.subset_iff]
    exact fun kind hkind => (Kinds.mem_inter.mp hkind).1
  · have hput : session.Step own (session.withTree (session.tree.setIntrinsic scope node entry)) :=
      .weighing scope node fun old hold => by rw [hentry old hold]; exact Kinds.subset_refl _
    exact .tail (.single hput) (.reporting _)

/-! ## Operations that ask definitions -/

section Acts

variable {base : ScopeTree} {definer : Definer σ} (hdefiner : definer.Acts own base)
include hdefiner

theorem follow_runs (id : NameId) (demanded : Kinds) (unbox : Bool) (h : session.tree.Formed)
    (hbase : base.Retains session.tree) :
    session.Runs own ((follow definer id demanded unbox).run session).2 := by
  have hfollows := follows_follow definer id demanded unbox h
  generalize (follow definer id demanded unbox).run session = followed at hfollows ⊢
  induction hfollows with
  | settled id _ => exact .single (.demanding id demanded unbox)
  | refused id _ => exact .tail (.single (.demanding id demanded unbox)) (.reporting _)
  | @delegated id source session _ _ _ ih =>
      have hdemanded : session.Step own (session.demanding id demanded unbox) :=
        .demanding id demanded unbox
      exact .head hdemanded (ih (hdemanded.formed h) (hbase.trans hdemanded.retains))
  | @bound id node session _ _ _ hdefined =>
      have hnoted : session.Runs own ((session.demanding id demanded unbox).noting
          (.defining node demanded unbox)) := .tail (.single (.demanding ..)) (.noting _)
      have hproven := hdefined ▸ hdefiner node demanded unbox _ (hnoted.formed h)
        (hbase.trans hnoted.retains)
      exact (hnoted.trans hproven).tail (.proving id _)

theorem ensure_runs (id : NameId) (demanded : Kinds) (unbox : Bool) (h : session.tree.Formed)
    (hbase : base.Retains session.tree) :
    session.Runs own ((ensure definer id demanded unbox).run session).2 := by
  have hasked : session.Step own (session.noting (.asked id demanded unbox)) := .noting _
  rw [run_ensure]
  exact .tail (.head hasked (follow_runs hdefiner id demanded unbox h hbase)) (.noting _)

theorem runs_sustained {first : Session σ} (h : first.tree.Formed)
    (hbase : base.Retains first.tree) : Sustains definer (first.Runs own) where
  formed _ hruns := hruns.formed h
  making _ _ hruns hmaking := hruns.tail hmaking.step
  ensure _ id hruns _ := by
    have hensured := ensure_runs hdefiner id {.frame} false (hruns.formed h)
      (hbase.trans hruns.retains)
    exact ⟨hruns.trans hensured, hensured.retains⟩

/-- Drilling down from a name leads to a name. -/
theorem drill_runs (components : List String) (id : NameId) (h : session.tree.Formed)
    (hbase : base.Retains session.tree) (hid : id.index < session.tree.names.size) :
    session.Runs own ((drill definer id components).run session).2 :=
  ((runs_sustained hdefiner h hbase).drill components id .refl hid).reached

theorem lookup_runs (scope : ScopeId) (path : List String) (span : Span) (h : session.tree.Formed)
    (hbase : base.Retains session.tree) :
    session.Runs own ((lookup definer scope path span).run session).2 :=
  ((runs_sustained hdefiner h hbase).lookup scope path span .refl).reached

end Acts

end ScopeM

/-! ## Operations -/

/-- Whatever operations do is a run. -/
theorem Session.Operated.runs {σ : Type} {own : σ → σ → Prop} {before after : Session σ}
    (h : before.Operated own after) (hformed : before.tree.Formed) : before.Runs own after := by
  have hany : Kinds.any ≠ ∅ := by decide
  induction h with
  | refl session => exact .refl
  | trans h h' ih ih' =>
      have hruns := ih hformed
      exact hruns.trans (ih' (Runs.formed hruns hformed))
  | noting session event => exact .single (.noting event)
  | reporting session reporter => exact .single (.reporting reporter)
  | own h => exact .single (.own h)
  | openRoot session span topLevel => exact .single (.openRoot span topLevel)
  | openInside session houter span delegates =>
      exact .single (.openInside houter span delegates)
  | @bind session scope name node tree h =>
      unfold ScopeTree.bind? at h
      split at h
      · cases h
      · obtain rfl := Option.some.inj h
        exact .single (.define (by simp) (session.tree.fits_own scope name rfl hany))
  | nameReplaced session scope name =>
      exact .single (.define (by simp) (session.tree.fits_own scope name rfl hany))
  | forbid session scope name => exact .single (.forbid scope name)
  | junk session => exact .single .junk
  | ensureIntrinsic session scope node demanded unbox span =>
      exact ScopeM.ensureIntrinsic_runs scope node demanded unbox span session
  | ensure session definer hdefiner id demanded unbox ih =>
      have hacts : definer.Acts own session.tree :=
        fun node demanded unbox later hlater hretains =>
          ih node demanded unbox later hlater hretains hlater
      exact ScopeM.ensure_runs hacts id demanded unbox hformed (.refl _)
  | drill session definer hdefiner hid components ih =>
      have hacts : definer.Acts own session.tree :=
        fun node demanded unbox later hlater hretains =>
          ih node demanded unbox later hlater hretains hlater
      exact ScopeM.drill_runs hacts components _ hformed (.refl _) hid
  | lookup session definer hdefiner scope path span ih =>
      have hacts : definer.Acts own session.tree :=
        fun node demanded unbox later hlater hretains =>
          ih node demanded unbox later hlater hretains hlater
      exact ScopeM.lookup_runs hacts scope path span hformed (.refl _)

/-- A definer that operates makes steps. -/
theorem Definer.Acts.of_operated {σ : Type} {own : σ → σ → Prop} {base : ScopeTree}
    {definer : Definer σ} (h : ∀ node demanded unbox (later : Session σ), later.tree.Formed →
      base.Retains later.tree →
        later.Operated own ((definer node demanded unbox).run later).2) : definer.Acts own base :=
  fun node demanded unbox later hlater hretains =>
    (h node demanded unbox later hlater hretains).runs hlater

end FrameLang
