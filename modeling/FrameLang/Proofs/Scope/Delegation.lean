import FrameLang.Proofs.Scope.Akin

/-!
# Delegated names

A delegated name is its source under another name.  A demand on it marks its own record and
goes on to the source, so after the demand the source has been marked as well
(`ScopeTree.Shared`), and the two agree on what is possible and on whether the value is
needed unboxed.  The same demand made on the source instead leaves the record of the
delegated name as it was, which nobody can tell (`ScopeM.ensure_delegated`).

## Strategy

While a demand is on its way, one name has been marked and its source has not.  The
invariant is therefore stated up to the sources that the demand is still underway to
(`ScopeTree.SharedBut`), and the demand passes this exception on from name to name until it
ends at a name without a source (`ScopeM.follow_shared`).  When a definition is asked, no
exception is left, so it does not matter that definitions make demands of their own.
-/

namespace FrameLang

/-! ## Definitions -/

namespace ScopeTree

/-- A name hands the demands on it on to another one. -/
def Delegates (tree : ScopeTree) (id source : NameId) : Prop :=
  (tree.name id).origin = .delegated source

/-- If the record of a delegated name says that its value is needed unboxed, the source says so
too, unless the demand is still underway to it. -/
def SharedBut (tree : ScopeTree) (underway : NameId → Prop) : Prop :=
  ∀ id source, tree.Delegates id source → (tree.name id).mustUnbox = true →
    tree.mustUnbox source = true ∨ underway source

/-- If the record of a delegated name says that its value is needed unboxed, the source says so
too. -/
def Shared (tree : ScopeTree) : Prop := tree.SharedBut fun _ => False

variable {tree before after : ScopeTree}

/-! ## What delegated names share -/

theorem Shared.mustUnbox_of_delegates (h : tree.Shared) (hformed : tree.Formed)
    {id source : NameId} (hdelegates : tree.Delegates id source) :
    tree.mustUnbox id = tree.mustUnbox source := by
  rw [mustUnbox_of_delegated hformed hdelegates]
  cases hown : (tree.name id).mustUnbox with
  | false => rfl
  | true => rw [(h id source hdelegates hown).resolve_right not_false, Bool.or_true]

/-- However many names a value goes through, all of them agree on it. -/
theorem Shared.agree (h : tree.Shared) (hformed : tree.Formed) {copy source : NameId}
    (hchain : Relation.TransGen tree.Delegates copy source) :
    tree.possible copy = tree.possible source ∧ tree.mustUnbox copy = tree.mustUnbox source := by
  induction hchain using Relation.TransGen.head_induction_on with
  | single hdelegates =>
      exact ⟨possible_of_delegated hformed hdelegates, h.mustUnbox_of_delegates hformed hdelegates⟩
  | head hdelegates _ ih =>
      exact ⟨(possible_of_delegated hformed hdelegates).trans ih.1,
        (h.mustUnbox_of_delegates hformed hdelegates).trans ih.2⟩

theorem shared_empty : (∅ : ScopeTree).Shared := by
  intro id source _ hown
  rw [name_of_size_le (Nat.zero_le _)] at hown
  cases hown

/-- Whatever leaves the marks on the records alone does not disturb anything. -/
theorem SharedBut.retains {underway : NameId → Prop} (h : before.SharedBut underway)
    (hformed : before.Formed) (hformed' : after.Formed) (hretains : before.Retains after)
    (hmarks : ∀ id, (after.name id).mustUnbox = true → (before.name id).mustUnbox = true) :
    after.SharedBut underway := by
  intro id source hdelegates hown
  have hmarked := hmarks id hown
  have hid : id.index < before.names.size := by
    by_contra hge
    rw [name_of_size_le (Nat.le_of_not_lt hge)] at hmarked
    cases hmarked
  have hbefore := (hretains.name id hid).origin.delegated_iff.mp hdelegates
  have hlt := (hformed.source id source (by rw [hbefore]; rfl)).1
  exact (h id source hbefore hmarked).imp_left fun hneeded =>
    mustUnbox_of_grows hformed hformed' hretains.name hneeded (Nat.lt_trans hlt hid)

/-- A new record has no mark. -/
theorem marked_addName {record : NameRecord} (hrecord : record.mustUnbox = false) (id : NameId)
    (h : ((tree.addName record).name id).mustUnbox = true) : (tree.name id).mustUnbox = true := by
  rw [name_addName] at h
  split at h
  · rw [hrecord] at h
    cases h
  · exact h

end ScopeTree

namespace Session

variable {σ : Type} {own : σ → σ → Prop} {session before after : Session σ}

/-- A demand marks the record of a name, and is underway to its source if there is one. -/
theorem shared_demanding (hformed : session.tree.Formed) {id : NameId} (demanded : Kinds)
    {unbox : Bool} (h : session.tree.SharedBut fun source => source = id ∧ unbox = true) :
    (session.demanding id demanded unbox).tree.SharedBut fun source =>
      session.tree.Delegates id source ∧ unbox = true := by
  have hstep : session.Step (fun _ _ => False) (session.demanding id demanded unbox) :=
    .demanding id demanded unbox
  have hretains := hstep.retains
  have hlater : ∀ {source : NameId}, source.index < session.tree.names.size →
      session.tree.mustUnbox source = true →
        (session.demanding id demanded unbox).tree.mustUnbox source = true :=
    fun hsource hneeded => ScopeTree.mustUnbox_of_grows hformed (hstep.formed hformed)
      hretains.name hneeded hsource
  have hmark : ((session.demanding id demanded unbox).tree.name id).mustUnbox =
      ((session.tree.name id).mustUnbox || (!session.tree.isJunk id && unbox)) := by
    rw [name_demanding, if_pos rfl, NameRecord.mustUnbox_afterDemand]
    rfl
  intro other source hdelegates hown
  have hother : other.index < session.tree.names.size := by
    have hsize := ScopeTree.lt_size_of_source (hdelegates ▸ rfl :
      ((session.demanding id demanded unbox).tree.name other).origin.source? = some source)
    rwa [demanding, tree_withTree, ScopeTree.size_names_modifyName] at hsize
  have hbefore := (hretains.name other hother).origin.delegated_iff.mp hdelegates
  obtain ⟨hlt, hlive, -⟩ := hformed.source other source (by rw [hbefore]; rfl)
  have hsource := Nat.lt_trans hlt hother
  by_cases hself : other = id
  · subst hself
    rw [hmark, Bool.or_eq_true] at hown
    rcases hown with hmarked | hnew
    · rcases h other source hbefore hmarked with hneeded | ⟨rfl, -⟩
      · exact .inl (hlater hsource hneeded)
      · exact absurd hlt (Nat.lt_irrefl _)
    · exact .inr ⟨hbefore, (Bool.and_eq_true _ _ ▸ hnew).2⟩
  · rw [name_demanding, if_neg (Ne.symm hself)] at hown
    rcases h other source hbefore hown with hneeded | ⟨rfl, hunbox⟩
    · exact .inl (hlater hsource hneeded)
    · -- the demand has come to the source that it was underway to
      refine .inl ?_
      rw [ScopeTree.mustUnbox, hmark, hlive, hunbox]
      simp

/-- Runs that mark no record do not disturb anything. -/
theorem Runs.shared_of_marks (h : before.Runs own after) (hformed : before.tree.Formed)
    (hshared : before.tree.Shared)
    (hmarks : ∀ id, (after.tree.name id).mustUnbox = true →
      (before.tree.name id).mustUnbox = true) : after.tree.Shared :=
  hshared.retains hformed (Runs.formed h hformed) (Runs.retains h) hmarks

/-- What lookups do by themselves marks no record. -/
theorem Making.marks (h : before.Making after) (id : NameId)
    (hmarked : (after.tree.name id).mustUnbox = true) :
    (before.tree.name id).mustUnbox = true := by
  cases h with
  | reporting error => exact hmarked
  | junk => exact ScopeTree.marked_addName rfl id hmarked
  | define hnew hlive hunbound hfits => exact ScopeTree.marked_addName rfl id hmarked
  | @addChild parent component record origin =>
      refine @ScopeTree.marked_addName _ (.new (record.path ++ "." ++ component) record.scope?
        origin) rfl id ?_
      change (((before.tree.addName _).modifyName parent _).name id).mustUnbox = true at hmarked
      rw [ScopeTree.name_modifyName] at hmarked
      split at hmarked
      · next heq => exact heq.1 ▸ hmarked
      · exact hmarked

end Session

/-! ## Operations -/

namespace ScopeM

variable {σ : Type} {own : σ → σ → Prop} {base : ScopeTree} {definer : Definer σ}
  {session : Session σ}

section Shares

variable (hacts : definer.Acts own base)
  (hshares : ∀ node demanded unbox (session : Session σ), session.tree.Formed →
    base.Retains session.tree → session.tree.Shared →
      ((definer node demanded unbox).run session).2.tree.Shared)
include hacts hshares

theorem follow_shared (id : NameId) (demanded : Kinds) (unbox : Bool)
    (hformed : session.tree.Formed) (hbase : base.Retains session.tree)
    (h : session.tree.SharedBut fun source => source = id ∧ unbox = true) :
    ((follow definer id demanded unbox).run session).2.tree.Shared := by
  have hfollows := follows_follow definer id demanded unbox hformed
  generalize (follow definer id demanded unbox).run session = followed at hfollows ⊢
  -- a name that does not hand the demand on is where it ends
  have hended : ∀ {id : NameId} {session : Session σ}, session.tree.Formed →
      session.tree.SharedBut (fun source => source = id ∧ unbox = true) →
      (∀ source, (session.tree.name id).origin.answer demanded ≠ .passOn source) →
        (session.demanding id demanded unbox).tree.Shared := by
    intro id session hformed h hends other source hother hown
    refine (Session.shared_demanding hformed demanded h other source hother hown).imp_right
      fun ⟨hnext, _⟩ => hends source ?_
    rw [hnext]
    rfl
  induction hfollows with
  | settled id hanswer => exact hended hformed h (by simp [hanswer])
  | refused id hanswer => exact hended hformed h (by simp [hanswer])
  | @delegated id source session _ horigin _ ih =>
      have hdemanded := Session.shared_demanding hformed demanded h
      have hstep : session.Step own (session.demanding id demanded unbox) :=
        .demanding id demanded unbox
      refine ih (hstep.formed hformed) (hbase.trans hstep.retains) fun other next hother hown => ?_
      refine (hdemanded other next hother hown).imp_right fun ⟨hnext, hunbox⟩ => ⟨?_, hunbox⟩
      exact (Origin.delegated.inj (horigin.symm.trans hnext)).symm
  | @bound id node session _ defined horigin hdefined =>
      have hasked : session.Runs own ((session.demanding id demanded unbox).noting
          (.defining node demanded unbox)) := .tail (.single (.demanding ..)) (.noting _)
      have hformed' := Session.Runs.formed hasked hformed
      have hbase' := hbase.trans (Session.Runs.retains hasked)
      have hshared := hshares node demanded unbox _ hformed' hbase'
        (hended hformed h (by simp [horigin, Origin.answer]))
      have hruns := hacts node demanded unbox _ hformed' hbase'
      rw [hdefined] at hshared hruns
      have hproving : defined.2.Step own (defined.2.proving id defined.1) := .proving id _
      refine Session.Runs.shared_of_marks (.single hproving)
        (Session.Runs.formed hruns hformed') hshared fun other hmarked => ?_
      rw [Session.proving, Session.tree_withTree, ScopeTree.name_modifyName] at hmarked
      split at hmarked
      · next heq => exact heq.1 ▸ hmarked
      · exact hmarked

theorem ensure_shared (id : NameId) (demanded : Kinds) (unbox : Bool)
    (hformed : session.tree.Formed) (hbase : base.Retains session.tree)
    (h : session.tree.Shared) :
    ((ensure definer id demanded unbox).run session).2.tree.Shared := by
  rw [run_ensure]
  have hasked : session.Step own (session.noting (.asked id demanded unbox)) := .noting _
  exact follow_shared hacts hshares id demanded unbox (hasked.formed hformed)
    (hbase.trans hasked.retains) fun other source hother hown =>
      .inl ((h other source hother hown).resolve_right not_false)

/-- Lookups keep up what delegated names share with their sources. -/
theorem shared_sustained {first : Session σ} (hformed : first.tree.Formed)
    (hbase : base.Retains first.tree) :
    Sustains definer fun session => first.Runs own session ∧ session.tree.Shared where
  formed _ h := Session.Runs.formed h.1 hformed
  making before after h hmaking := by
    have hstep : before.Step own after := hmaking.step
    exact ⟨h.1.tail hstep, Session.Runs.shared_of_marks (.single hstep)
      (Session.Runs.formed h.1 hformed) h.2 hmaking.marks⟩
  ensure session id h hid := by
    obtain ⟨hruns, hretains⟩ := (runs_sustained hacts hformed hbase).ensure session id h.1 hid
    have hshared := ensure_shared hacts hshares id {.frame} false (Session.Runs.formed h.1 hformed)
      (hbase.trans (Session.Runs.retains h.1)) h.2
    exact ⟨⟨hruns, hshared⟩, hretains⟩

end Shares

end ScopeM

/-- Whatever operations do, a delegated name shares its value with its source. -/
theorem Session.Operated.shared {σ : Type} {own : σ → σ → Prop} {before after : Session σ}
    (h : before.Operated own after) (hformed : before.tree.Formed)
    (hshared : before.tree.Shared) : after.tree.Shared := by
  have hdefined : ∀ (tree : ScopeTree) (scope : ScopeId) (name : String) (origin : Origin) id,
      ((tree.define scope name origin).name id).mustUnbox = true →
        (tree.name id).mustUnbox = true :=
    fun _ _ _ _ id hmarked => ScopeTree.marked_addName rfl id hmarked
  -- an operation that does not demand anything marks no record
  have hunmarked : ∀ {before after : Session σ}, before.Operated own after →
      before.tree.Formed → before.tree.Shared → (∀ id, (after.tree.name id).mustUnbox = true →
        (before.tree.name id).mustUnbox = true) → after.tree.Shared :=
    fun h hformed => Runs.shared_of_marks (h.runs hformed) hformed
  induction h with
  | refl session => exact hshared
  | trans h h' ih ih' => exact ih' (Runs.formed (h.runs hformed) hformed) (ih hformed hshared)
  | noting session event => exact hshared
  | reporting session reporter => exact hshared
  | own h => exact hshared
  | openRoot session span topLevel =>
      exact hunmarked (.openRoot session span topLevel) hformed hshared fun _ hmarked => hmarked
  | openInside session houter span delegates =>
      exact hunmarked (.openInside session houter span delegates) hformed hshared
        fun _ hmarked => hmarked
  | @bind session scope name node tree h =>
      refine hunmarked (.bind h) hformed hshared ?_
      unfold ScopeTree.bind? at h
      split at h
      · cases h
      · obtain rfl := Option.some.inj h
        exact fun id => hdefined _ _ _ _ id
  | nameReplaced session scope name =>
      exact hunmarked (.nameReplaced session scope name) hformed hshared
        fun id => hdefined _ _ _ _ id
  | forbid session scope name =>
      exact hunmarked (.forbid session scope name) hformed hshared fun _ hmarked => hmarked
  | junk session =>
      exact hunmarked (.junk session) hformed hshared
        fun id hmarked => ScopeTree.marked_addName rfl id hmarked
  | ensureIntrinsic session scope node demanded unbox span =>
      refine hunmarked (.ensureIntrinsic session scope node demanded unbox span) hformed hshared
        fun id hmarked => ?_
      rw [ScopeM.run_ensureIntrinsic] at hmarked
      dsimp only at hmarked
      split at hmarked <;> exact hmarked
  | ensure session definer hdefiner id demanded unbox ih =>
      have hshares := fun node demanded unbox later hlater hretains =>
        ih node demanded unbox later hlater hretains hlater
      exact ScopeM.ensure_shared (.of_operated hdefiner) hshares id demanded unbox hformed
        (.refl _) hshared
  | drill session definer hdefiner hid components ih =>
      have hshares := fun node demanded unbox later hlater hretains =>
        ih node demanded unbox later hlater hretains hlater
      have hsustained := ScopeM.shared_sustained (.of_operated hdefiner) hshares hformed (.refl _)
      exact (hsustained.drill components _ ⟨.refl, hshared⟩ hid).reached.2
  | lookup session definer hdefiner scope path span ih =>
      have hshares := fun node demanded unbox later hlater hretains =>
        ih node demanded unbox later hlater hretains hlater
      have hsustained := ScopeM.shared_sustained (.of_operated hdefiner) hshares hformed (.refl _)
      exact (hsustained.lookup scope path span ⟨.refl, hshared⟩).reached.2

/-! ## Demands on delegated names -/

namespace ScopeM

open Session (Akin)

variable {σ : Type} {definer : Definer σ} {session : Session σ} {copy source : NameId}

/-- A demand only marks the record of a delegated name. -/
theorem akin_afterDemand_of_delegated {record : NameRecord} (h : record.origin = .delegated source)
    (demanded : Kinds) (unbox : Bool) : (record.afterDemand demanded unbox).Akin record := by
  have hgrows := record.grows_afterDemand demanded unbox
  refine ⟨hgrows.path.symm, hgrows.scope?.symm, ?_, (NameRecord.children_afterDemand ..).symm⟩
  rw [NameRecord.origin_afterDemand, h]
  rfl

/-- Once the source has been marked, nobody can tell whether the delegated name has been. -/
theorem akin_demanding_source (hformed : session.tree.Formed)
    (hdelegates : session.tree.Delegates copy source) (demanded : Kinds) (unbox : Bool) :
    ((session.demanding copy demanded unbox).demanding source demanded unbox).Akin
      (session.demanding source demanded unbox) := by
  obtain ⟨hlt, hlive, -⟩ := hformed.source copy source (by rw [hdelegates]; rfl)
  have hne : copy ≠ source := by
    rintro rfl
    exact Nat.lt_irrefl _ hlt
  have hruns : session.Runs (fun _ _ => False)
      ((session.demanding copy demanded unbox).demanding source demanded unbox) :=
    .tail (.single (.demanding copy demanded unbox)) (.demanding source demanded unbox)
  -- the record of the copy is the only one that differs
  have hcopy : ((session.demanding copy demanded unbox).demanding source demanded unbox).tree.name
      copy = (session.tree.name copy).afterDemand demanded unbox := by
    rw [Session.name_demanding, if_neg hne.symm, Session.name_demanding, if_pos rfl]
  have hother : ∀ id, id ≠ copy →
      ((session.demanding copy demanded unbox).demanding source demanded unbox).tree.name id =
        (session.demanding source demanded unbox).tree.name id := by
    intro id hid
    simp only [Session.name_demanding, if_neg hne, if_neg (Ne.symm hid)]
  refine ⟨Session.Runs.formed hruns hformed, ⟨?_, rfl, fun id => ?_, fun id => ?_⟩, rfl, rfl⟩
  · simp [Session.demanding]
  · by_cases hid : id = copy
    · subst hid
      rw [hcopy, Session.name_demanding, if_neg hne.symm]
      exact akin_afterDemand_of_delegated hdelegates demanded unbox
    · exact hother id hid ▸ .refl _
  · by_cases hid : id = copy
    · subst hid
      rw [hcopy, Session.name_demanding, if_neg hne.symm]
      cases unbox with
      | false => exact .inl (by simp [NameRecord.mustUnbox_afterDemand])
      | true =>
          refine .inr ⟨source, ?_, ?_⟩
          · rw [NameRecord.origin_afterDemand, hdelegates]
            rfl
          · have hlive : (session.tree.name source).isJunk = false := hlive
            rw [ScopeTree.mustUnbox, hother source hne.symm, Session.name_demanding, if_pos rfl,
              NameRecord.mustUnbox_afterDemand, hlive]
            simp
    · exact .inl (congrArg NameRecord.mustUnbox (hother id hid).symm)

variable (hblind : definer.Blind)
include hblind

theorem follow_delegated (hformed : session.tree.Formed)
    (hdelegates : session.tree.Delegates copy source) (demanded : Kinds) (unbox : Bool) :
    Coupled Akin ((follow definer copy demanded unbox).run session)
      ((follow definer source demanded unbox).run session) := by
  have hlt := (hformed.source copy source (by rw [hdelegates]; rfl)).1
  have hne : copy ≠ source := by
    rintro rfl
    exact Nat.lt_irrefl _ hlt
  have hsame : (session.demanding copy demanded unbox).tree.name source =
      session.tree.name source := by rw [Session.name_demanding, if_neg hne]
  have hakin := akin_demanding_source hformed hdelegates demanded unbox
  rw [run_follow, hdelegates]
  dsimp only [Origin.answer]
  rw [if_pos hlt]
  refine follow_coupled_of hblind (hsame ▸ .refl _) ?_ rfl hakin
    fun other _ => follow_coupled hblind other demanded unbox hakin
  rw [ScopeTree.spanOfName, ScopeTree.spanOfName, hsame]
  rfl

/-- A demand on a delegated name could as well be made on its source. -/
theorem ensure_delegated (hformed : session.tree.Formed)
    (hdelegates : session.tree.Delegates copy source) (demanded : Kinds) (unbox : Bool) :
    Coupled Akin ((ensure definer copy demanded unbox).run session)
      ((ensure definer source demanded unbox).run session) := by
  have hasked : (session.noting (.asked copy demanded unbox)).Akin
      (session.noting (.asked source demanded unbox)) := (Akin.refl hformed).noting _ _
  have hfollowed := (follow_delegated hblind hasked.formed hdelegates demanded unbox).trans
    (follow_coupled hblind source demanded unbox hasked)
  rw [run_ensure, run_ensure]
  exact ⟨hfollowed.value, hfollowed.related.noting _ _⟩

/-- A demand may be made on any of the names that a value goes through. -/
theorem ensure_chained (hformed : session.tree.Formed)
    (hchain : Relation.TransGen session.tree.Delegates copy source) (demanded : Kinds)
    (unbox : Bool) :
    Coupled Akin ((ensure definer copy demanded unbox).run session)
      ((ensure definer source demanded unbox).run session) := by
  induction hchain using Relation.TransGen.head_induction_on with
  | single hdelegates => exact ensure_delegated hblind hformed hdelegates demanded unbox
  | head hdelegates _ ih =>
      exact (ensure_delegated hblind hformed hdelegates demanded unbox).trans ih

end ScopeM

end FrameLang
