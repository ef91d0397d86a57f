import FrameLang.Proofs.Scope.Akin
import FrameLang.Proofs.Scope.Demands

/-!
# Demands in any order

A demand on a name gets to the names on its *route* (`ScopeTree.route`): to the name itself,
to its source if it is delegated, and so on.  If no definition stands at the end of the route
(`ScopeTree.Settles`), this is all that comes of the demand.

Such demands may be made in any order (`ScopeM.demands_commute`).  If nothing is reported in
one order, nothing is in any other one, and the tree comes to know the same.  Routes of
different names may meet, so this is not about the names that demands are made on but about
the names that they get to.

## Strategy

Routes do not change, so what becomes of a record can be told from the demands that get to it
(`ScopeM.name_ensureAll`).  If nothing is reported, the records in the end agree with every
demand that has got to them (`ScopeM.met_ensureAll`).  They are a floor that the demands never
go below, in whatever order they are made; so none is declined (`ScopeM.quiet_ensureAll`), and
each record comes to the floor (`NameRecord.afterDemands_perm`).
-/

namespace FrameLang

/-! ## Definitions -/

/-- A demand to be made on a name. -/
structure Request where
  name : NameId
  demanded : Kinds
  unbox : Bool
  deriving DecidableEq, Repr

/-- Nothing that is known with an origin agrees with a demand. -/
def Origin.Declines (origin : Origin) (demanded : Kinds) : Prop :=
  ∃ known, origin.answer demanded = .refused known

namespace ScopeTree

/-- The demands on a name end at a free, replaced or masked name. -/
inductive Settles (tree : ScopeTree) : NameId → Prop where
  | free {id : NameId} {kinds : Kinds} (h : (tree.name id).origin = .free kinds) : Settles tree id
  | replaced {id : NameId} {kinds : Kinds} (h : (tree.name id).origin = .replaced kinds) :
      Settles tree id
  | masked {id source : NameId} {mask : Kinds} (h : (tree.name id).origin = .masked source mask) :
      Settles tree id
  | delegated {id source : NameId} (h : (tree.name id).origin = .delegated source)
      (hsource : Settles tree source) : Settles tree id

/-- The names that a demand on a name gets to, in this order. -/
def route (tree : ScopeTree) (id : NameId) : List NameId :=
  match (tree.name id).origin with
  | .delegated source => if _h : source.index < id.index then id :: tree.route source else [id]
  | _ => [id]
termination_by id.index

/-- A demand on a name is declined on its way. -/
def Declines (tree : ScopeTree) (id : NameId) (demanded : Kinds) : Prop :=
  ∃ other ∈ tree.route id, (tree.name other).origin.Declines demanded

end ScopeTree

/-- The demands that get to one record, each with whether it needs the value unboxed. -/
def demandsOn (tree : ScopeTree) (requests : List Request) (id : NameId) : List (Kinds × Bool) :=
  requests.filterMap fun request =>
    if id ∈ tree.route request.name then some (request.demanded, request.unbox) else none

/-- Make one demand after the other. -/
def ScopeM.ensureAll {σ : Type} (definer : Definer σ) (requests : List Request) :
    ScopeM σ PUnit :=
  requests.forM fun request => do
    let _ ← ensure definer request.name request.demanded request.unbox

/-- What comes of a demand that does not get to a definition. -/
structure Session.Demanded {σ : Type} (before : Session σ) (request : Request)
    (after : Session σ) : Prop where
  name : ∀ id, after.tree.name id =
    if id ∈ before.tree.route request.name then
      (before.tree.name id).afterDemand request.demanded request.unbox
    else before.tree.name id
  size_names : after.tree.names.size = before.tree.names.size
  scopes : after.tree.scopes = before.tree.scopes
  accepted : ¬ before.tree.Declines request.name request.demanded →
    after.reporter = before.reporter
  declined : before.tree.Declines request.name request.demanded →
    ∃ error, after.reporter = before.reporter.push error

/-- More is known of the names, and everything else is as it was. -/
structure Session.Narrowed {σ : Type} (before after : Session σ) : Prop where
  formed : after.tree.Formed
  name : ∀ id, (before.tree.name id).Grows (after.tree.name id)
  size_names : after.tree.names.size = before.tree.names.size
  scopes : after.tree.scopes = before.tree.scopes
  reporter : before.reporter.Grows after.reporter

/-! ## Routes -/

namespace ScopeTree

variable {tree before after : ScopeTree}

theorem route_of_delegated (hformed : tree.Formed) {id source : NameId}
    (h : (tree.name id).origin = .delegated source) :
    tree.route id = id :: tree.route source := by
  rw [route, h]
  exact dif_pos (hformed.source id source (by rw [h]; rfl)).1

theorem route_of_not_delegated {id : NameId}
    (h : ∀ source, (tree.name id).origin ≠ .delegated source) : tree.route id = [id] := by
  rw [route]
  cases horigin : (tree.name id).origin with
  | delegated source => exact absurd horigin (h source)
  | _ => rfl

theorem le_of_mem_route {id other : NameId} (h : other ∈ tree.route id) :
    other.index ≤ id.index := by
  induction id using NameId.strongInduction with
  | step id ih =>
      rw [route] at h
      split at h
      · next source _ =>
        split at h
        · next hlt =>
          rcases List.mem_cons.mp h with rfl | hmem
          · exact Nat.le_refl _
          · exact Nat.le_trans (ih source hlt hmem) (Nat.le_of_lt hlt)
        · exact Nat.le_of_eq (congrArg NameId.index (List.mem_singleton.mp h))
      · exact Nat.le_of_eq (congrArg NameId.index (List.mem_singleton.mp h))

/-- Whatever comes to be known, demands get to the same names. -/
theorem route_of_narrows
    (h : ∀ id, (before.name id).origin.Narrows (after.name id).origin) (id : NameId) :
    after.route id = before.route id := by
  induction id using NameId.strongInduction with
  | step id ih =>
      have hnarrows := h id
      rw [route, route]
      generalize (before.name id).origin = old at hnarrows ⊢
      generalize (after.name id).origin = new at hnarrows ⊢
      cases hnarrows with
      | @delegated source =>
          dsimp only
          split
          · next hlt => rw [ih source hlt]
          · rfl
      | _ => rfl

theorem Settles.of_narrows
    (hnarrows : ∀ id, (before.name id).origin.Narrows (after.name id).origin) {id : NameId}
    (h : before.Settles id) : after.Settles id := by
  induction h with
  | @free id kinds horigin =>
      have hid := hnarrows id
      rw [horigin] at hid
      generalize hafter : (after.name id).origin = new at hid
      cases hid
      exact .free hafter
  | @replaced id kinds horigin =>
      have hid := hnarrows id
      rw [horigin] at hid
      generalize hafter : (after.name id).origin = new at hid
      cases hid
      exact .replaced hafter
  | @masked id source mask horigin =>
      obtain ⟨mask', hafter⟩ := (hnarrows id).exists_mask_iff.mpr ⟨mask, horigin⟩
      exact .masked hafter
  | delegated horigin _ ih => exact .delegated ((hnarrows _).delegated_iff.mpr horigin) ih

/-- No definition stands on the route of a name that settles demands. -/
theorem Settles.definition?_of_mem_route (hformed : tree.Formed) {id other : NameId}
    (h : tree.Settles id) (hother : other ∈ tree.route id) :
    (tree.name other).origin.definition? = none := by
  induction h with
  | free horigin | replaced horigin | masked horigin =>
      rw [route_of_not_delegated (by simp [horigin]), List.mem_singleton] at hother
      rw [hother, horigin]
      rfl
  | delegated horigin _ ih =>
      rw [route_of_delegated hformed horigin] at hother
      rcases List.mem_cons.mp hother with rfl | hmem
      · rw [horigin]
        rfl
      · exact ih hmem

end ScopeTree

/-! ## One demand -/

namespace Session

variable {σ : Type} {before after : Session σ} {request : Request}

theorem Narrowed.refl {session : Session σ} (h : session.tree.Formed) : session.Narrowed session :=
  ⟨h, fun _ => .refl _, rfl, rfl, .refl _⟩

theorem Narrowed.trans {first second third : Session σ} (h : first.Narrowed second)
    (h' : second.Narrowed third) : first.Narrowed third :=
  ⟨h'.formed, fun id => (h.name id).trans (h'.name id), h'.size_names.trans h.size_names,
    h'.scopes.trans h.scopes, h.reporter.trans h'.reporter⟩

theorem Narrowed.route (h : before.Narrowed after) (id : NameId) :
    after.tree.route id = before.tree.route id :=
  ScopeTree.route_of_narrows (fun id => (h.name id).origin) id

theorem Narrowed.settles (h : before.Narrowed after) {id : NameId}
    (hsettles : before.tree.Settles id) : after.tree.Settles id :=
  hsettles.of_narrows fun id => (h.name id).origin

theorem Demanded.narrowed (h : before.Demanded request after) (hformed : before.tree.Formed) :
    before.Narrowed after := by
  have hname : ∀ id, (before.tree.name id).Grows (after.tree.name id) ∧
      (after.tree.name id).children = (before.tree.name id).children := by
    intro id
    rw [h.name]
    split
    · exact ⟨NameRecord.grows_afterDemand .., NameRecord.children_afterDemand ..⟩
    · exact ⟨.refl _, rfl⟩
  have hscope : ∀ id, after.tree.scope id = before.tree.scope id := fun id => by
    rw [ScopeTree.scope, h.scopes, ScopeTree.scope]
  refine ⟨?_, fun id => (hname id).1, h.size_names, h.scopes, ?_⟩
  · exact hformed.of_grows ⟨Nat.le_of_eq h.size_names.symm, Nat.le_of_eq (by rw [h.scopes]),
      fun id _ => (hname id).1, fun id _ => hscope id ▸ .refl _⟩ h.size_names (by rw [h.scopes])
      (fun id => (hname id).2) fun id => by rw [hscope]
  · by_cases hdeclines : before.tree.Declines request.name request.demanded
    · obtain ⟨error, hreporter⟩ := h.declined hdeclines
      exact hreporter ▸ Reporter.grows_push ..
    · exact h.accepted hdeclines ▸ .refl _

end Session

namespace ScopeM

variable {σ : Type} {definer : Definer σ} {session : Session σ}

/-- A demand ends at a name that neither hands it on nor asks a definition. -/
theorem follow_demanded_of_ended {request : Request} {known : Kinds}
    (hroute : session.tree.route request.name = [request.name])
    (hanswer : (session.tree.name request.name).origin.answer request.demanded =
      .of known request.demanded) :
    session.Demanded request
      ((follow definer request.name request.demanded request.unbox).run session).2 := by
  have hname : ∀ id, (session.demanding request.name request.demanded request.unbox).tree.name id =
      if id ∈ session.tree.route request.name then
        (session.tree.name id).afterDemand request.demanded request.unbox
      else session.tree.name id := by
    intro id
    rw [hroute, Session.name_demanding]
    by_cases heq : request.name = id
    · simp [heq]
    · simp [heq, Ne.symm heq]
  have hsize : (session.demanding request.name request.demanded
      request.unbox).tree.names.size = session.tree.names.size :=
    ScopeTree.size_names_modifyName ..
  have hdeclines : session.tree.Declines request.name request.demanded ↔
      ∃ kinds, Answer.of known request.demanded = .refused kinds := by
    unfold ScopeTree.Declines Origin.Declines
    simp [hroute, hanswer]
  rw [run_follow, hanswer]
  cases hof : Answer.of known request.demanded with
  | settled proven =>
      rw [hof] at hdeclines
      exact ⟨hname, hsize, rfl, fun _ => rfl, fun hdeclined => by simp [hdeclines] at hdeclined⟩
  | refused kinds =>
      exact ⟨hname, hsize, rfl, fun hnot => absurd (hdeclines.mpr ⟨kinds, hof⟩) hnot,
        fun _ => ⟨_, rfl⟩⟩
  | passOn source => exact absurd hof ((Answer.of_settles ..).2 source)
  | define node => exact absurd hof ((Answer.of_settles ..).1 node)

theorem narrows_demanding (session : Session σ) (id : NameId) (demanded : Kinds) (unbox : Bool)
    (other : NameId) : (session.tree.name other).origin.Narrows
      ((session.demanding id demanded unbox).tree.name other).origin := by
  rw [Session.name_demanding]
  split
  · next heq => exact heq ▸ (NameRecord.grows_afterDemand ..).origin
  · exact .refl _

/-- A demand on a delegated name comes to the demand on its source, and marks the name itself. -/
theorem demanded_of_delegated (hformed : session.tree.Formed) {id source : NameId}
    (hdelegated : (session.tree.name id).origin = .delegated source) {demanded : Kinds}
    {unbox : Bool} {after : Session σ}
    (hpassed : (session.demanding id demanded unbox).Demanded ⟨source, demanded, unbox⟩ after) :
    session.Demanded ⟨id, demanded, unbox⟩ after := by
  have hlt := (hformed.source id source (by rw [hdelegated]; rfl)).1
  have hroute := ScopeTree.route_of_delegated hformed hdelegated
  have hroute' : (session.demanding id demanded unbox).tree.route source =
      session.tree.route source :=
    ScopeTree.route_of_narrows (narrows_demanding session id demanded unbox) source
  have hnotmem : id ∉ session.tree.route source := fun hmem =>
    Nat.not_le_of_lt hlt (ScopeTree.le_of_mem_route hmem)
  have hsame : ∀ other ∈ session.tree.route source,
      (session.demanding id demanded unbox).tree.name other = session.tree.name other :=
    fun other hmem => (Session.name_demanding ..).trans
      (if_neg fun heq : id = other => hnotmem (heq ▸ hmem))
  -- the name itself hands the demand on, so it is declined further on or not at all
  have hdeclines : (session.demanding id demanded unbox).tree.Declines source demanded ↔
      session.tree.Declines id demanded := by
    unfold ScopeTree.Declines
    rw [hroute', hroute]
    constructor
    · rintro ⟨other, hmem, hdeclined⟩
      exact ⟨other, List.mem_cons_of_mem _ hmem, hsame other hmem ▸ hdeclined⟩
    · rintro ⟨other, hmem, hdeclined⟩
      rcases List.mem_cons.mp hmem with rfl | hmem
      · obtain ⟨known, hknown⟩ := hdeclined
        rw [hdelegated] at hknown
        cases hknown
      · exact ⟨other, hmem, (hsame other hmem).symm ▸ hdeclined⟩
  refine ⟨fun other => ?_, hpassed.size_names.trans (ScopeTree.size_names_modifyName ..),
    hpassed.scopes, fun hnot => hpassed.accepted (mt hdeclines.mp hnot),
    fun hdeclined => hpassed.declined (hdeclines.mpr hdeclined)⟩
  rw [hpassed.name other, hroute, hroute', Session.name_demanding]
  by_cases heq : id = other
  · subst heq
    simp [hnotmem]
  · simp [heq, Ne.symm heq]

theorem follow_demanded (hformed : session.tree.Formed) {request : Request}
    (hsettles : session.tree.Settles request.name) :
    session.Demanded request
      ((follow definer request.name request.demanded request.unbox).run session).2 := by
  obtain ⟨id, demanded, unbox⟩ := request
  dsimp only at hsettles ⊢
  induction id using NameId.strongInduction generalizing session with
  | step id ih =>
      have hended : ∀ {known : Kinds},
          (∀ source, (session.tree.name id).origin ≠ .delegated source) →
          (session.tree.name id).origin.answer demanded = .of known demanded →
            session.Demanded ⟨id, demanded, unbox⟩
              ((follow definer id demanded unbox).run session).2 :=
        fun hnot hanswer => @follow_demanded_of_ended _ definer _ ⟨id, demanded, unbox⟩ _
          (ScopeTree.route_of_not_delegated hnot) hanswer
      cases hsettles with
      | free horigin => exact hended (by simp [horigin]) (by rw [horigin]; rfl)
      | replaced horigin => exact hended (by simp [horigin]) (by rw [horigin]; rfl)
      | masked horigin => exact hended (by simp [horigin]) (by rw [horigin]; rfl)
      | @delegated _ source horigin hsource =>
          have hlt := (hformed.source id source (by rw [horigin]; rfl)).1
          have hpassed := ih source hlt (Session.formed_demanding id hformed demanded unbox)
            (hsource.of_narrows (narrows_demanding session id demanded unbox))
          rw [run_follow, horigin]
          dsimp only [Origin.answer]
          rw [if_pos hlt]
          exact demanded_of_delegated hformed horigin hpassed

theorem ensure_demanded (hformed : session.tree.Formed) {request : Request}
    (hsettles : session.tree.Settles request.name) :
    session.Demanded request
      ((ensure definer request.name request.demanded request.unbox).run session).2 := by
  rw [run_ensure]
  have hfollowed := @follow_demanded _ definer
    (session.noting (.asked request.name request.demanded request.unbox)) hformed request hsettles
  exact ⟨hfollowed.name, hfollowed.size_names, hfollowed.scopes, hfollowed.accepted,
    hfollowed.declined⟩

/-! ## One demand after the other -/

theorem run_ensureAll_cons (definer : Definer σ) (request : Request) (rest : List Request)
    (session : Session σ) :
    (ensureAll definer (request :: rest)).run session = (ensureAll definer rest).run
      ((ensure definer request.name request.demanded request.unbox).run session).2 := rfl

section All

variable (hformed : session.tree.Formed) {requests : List Request}
  (hsettles : ∀ request ∈ requests, session.tree.Settles request.name)
include hformed hsettles

theorem ensureAll_narrowed (definer : Definer σ) :
    session.Narrowed ((ensureAll definer requests).run session).2 := by
  induction requests generalizing session with
  | nil => exact .refl hformed
  | cons request rest ih =>
      obtain ⟨hfirst, hrest⟩ := List.forall_mem_cons.mp hsettles
      have hnarrowed := (@ensure_demanded _ definer _ hformed request hfirst).narrowed hformed
      rw [run_ensureAll_cons]
      exact hnarrowed.trans
        (ih hnarrowed.formed fun other hother => hnarrowed.settles (hrest other hother))

/-- What becomes of a record are the demands that get to it. -/
theorem name_ensureAll (definer : Definer σ) (id : NameId) :
    ((ensureAll definer requests).run session).2.tree.name id =
      (session.tree.name id).afterDemands (demandsOn session.tree requests id) := by
  induction requests generalizing session with
  | nil => rfl
  | cons request rest ih =>
      obtain ⟨hfirst, hrest⟩ := List.forall_mem_cons.mp hsettles
      have hdemanded := @ensure_demanded _ definer _ hformed request hfirst
      have hnarrowed := hdemanded.narrowed hformed
      rw [run_ensureAll_cons]
      generalize ((ensure definer request.name request.demanded request.unbox).run session).2 =
        after at hdemanded hnarrowed ⊢
      rw [ih hnarrowed.formed fun other hother => hnarrowed.settles (hrest other hother)]
      have hroutes : demandsOn after.tree rest id = demandsOn session.tree rest id := by
        unfold demandsOn
        simp only [hnarrowed.route]
      rw [hroutes, hdemanded.name]
      by_cases hmem : id ∈ session.tree.route request.name
      · simp [demandsOn, hmem, NameRecord.afterDemands]
      · simp [demandsOn, hmem]

/-- If nothing has been reported, every record in the end agrees with the demands that have got to
it. -/
theorem met_ensureAll (definer : Definer σ) (hcounts : session.reporter.Counts)
    (hquiet : ((ensureAll definer requests).run session).2.reporter.report.totalErrors = 0) :
    ∀ request ∈ requests, ∀ id ∈ session.tree.route request.name,
      (((ensureAll definer requests).run session).2.tree.name id).origin.Met
        request.demanded := by
  induction requests generalizing session with
  | nil => exact fun _ hmem => by cases hmem
  | cons request rest ih =>
      obtain ⟨hfirst, hrest⟩ := List.forall_mem_cons.mp hsettles
      have hdemanded := @ensure_demanded _ definer _ hformed request hfirst
      have hnarrowed := hdemanded.narrowed hformed
      rw [run_ensureAll_cons] at hquiet ⊢
      generalize ((ensure definer request.name request.demanded request.unbox).run session).2 =
        after at hdemanded hnarrowed hquiet ⊢
      have hrest' : ∀ other ∈ rest, after.tree.Settles other.name :=
        fun other hother => hnarrowed.settles (hrest other hother)
      have hlater := ensureAll_narrowed hnarrowed.formed hrest' definer
      have haccepted : ¬ session.tree.Declines request.name request.demanded := by
        intro hdeclines
        obtain ⟨error, hreporter⟩ := hdemanded.declined hdeclines
        have hclean := hlater.reporter.clean hquiet
        rw [hreporter] at hclean
        exact Reporter.totalErrors_push_ne_zero hcounts error hclean
      refine List.forall_mem_cons.mpr ⟨fun id hid => ?_, fun other hother id hid => ?_⟩
      · -- the demand has been met when it was made, and nothing has been forgotten since
        refine Origin.Met.narrows ?_ (hlater.name id).origin
        rw [hdemanded.name, if_pos hid, NameRecord.origin_afterDemand]
        exact Origin.met_narrow fun known hknown => haccepted ⟨id, hid, known, hknown⟩
      · exact ih hnarrowed.formed hrest' (hnarrowed.reporter.counts hcounts) hquiet other hother id
          ((hnarrowed.route other.name).symm ▸ hid)

/-- Demands that all agree with a floor are all accepted. -/
theorem quiet_ensureAll (definer : Definer σ) {floor : ScopeTree} (hfloor : floor.Formed)
    (hnarrows : ∀ id, (session.tree.name id).origin.Narrows (floor.name id).origin)
    (hmet : ∀ request ∈ requests, ∀ id ∈ session.tree.route request.name,
      (floor.name id).origin.Met request.demanded) :
    ((ensureAll definer requests).run session).2.reporter = session.reporter := by
  induction requests generalizing session with
  | nil => rfl
  | cons request rest ih =>
      obtain ⟨hfirst, hrest⟩ := List.forall_mem_cons.mp hsettles
      obtain ⟨hmetFirst, hmetRest⟩ := List.forall_mem_cons.mp hmet
      have hdemanded := @ensure_demanded _ definer _ hformed request hfirst
      have hnarrowed := hdemanded.narrowed hformed
      have hagrees := fun id hid => Origin.narrows_of_met (hnarrows id)
        (hfirst.definition?_of_mem_route hformed hid) (hmetFirst id hid) (hfloor.known id)
      rw [run_ensureAll_cons]
      generalize ((ensure definer request.name request.demanded request.unbox).run session).2 =
        after at hdemanded hnarrowed ⊢
      have haccepted : after.reporter = session.reporter := by
        refine hdemanded.accepted ?_
        rintro ⟨id, hid, known, hknown⟩
        exact (hagrees id hid).2 known hknown
      rw [ih hnarrowed.formed (fun other hother => hnarrowed.settles (hrest other hother))
        (fun id => ?_) fun other hother id hid => ?_, haccepted]
      · rw [hdemanded.name]
        split
        · next hid =>
          rw [NameRecord.origin_afterDemand]
          exact (hagrees id hid).1
        · exact hnarrows id
      · exact hmetRest other hother id (hnarrowed.route other.name ▸ hid)

end All

theorem mem_demandsOn {tree : ScopeTree} {requests : List Request} {id : NameId}
    {demand : Kinds × Bool} (h : demand ∈ demandsOn tree requests id) :
    ∃ request ∈ requests, id ∈ tree.route request.name ∧ demand.1 = request.demanded := by
  obtain ⟨request, hmem, hdemand⟩ := List.mem_filterMap.mp h
  split at hdemand
  · next hid =>
    obtain rfl := Option.some.inj hdemand
    exact ⟨request, hmem, hid, rfl⟩
  · cases hdemand

/-- If nothing is reported in one order, then nothing is in another one, and the trees cannot be
told apart. -/
theorem ensureAll_perm (hformed : session.tree.Formed) (hcounts : session.reporter.Counts)
    (definer : Definer σ) {requests others : List Request} (hperm : requests.Perm others)
    (hsettles : ∀ request ∈ requests, session.tree.Settles request.name)
    (hquiet : ((ensureAll definer requests).run session).2.reporter.report.totalErrors = 0) :
    ((ensureAll definer others).run session).2.reporter = session.reporter ∧
      ((ensureAll definer requests).run session).2.tree.Akin
        ((ensureAll definer others).run session).2.tree := by
  have hsettles' : ∀ request ∈ others, session.tree.Settles request.name :=
    fun request hmem => hsettles request (hperm.mem_iff.mpr hmem)
  have hmet := met_ensureAll hformed hsettles definer hcounts hquiet
  have hfloor := ensureAll_narrowed hformed hsettles definer
  have hother := ensureAll_narrowed hformed hsettles' definer
  have hname : ∀ id, ((ensureAll definer others).run session).2.tree.name id =
      ((ensureAll definer requests).run session).2.tree.name id := by
    intro id
    have hfinal := name_ensureAll hformed hsettles definer id
    rw [hfinal, name_ensureAll hformed hsettles' definer]
    have hdemands : (demandsOn session.tree requests id).Perm
        (demandsOn session.tree others id) := hperm.filterMap _
    cases hlist : demandsOn session.tree requests id with
    | nil =>
        rw [hlist] at hdemands
        rw [← hdemands.nil_eq]
    | cons demand rest =>
        obtain ⟨request, hmem, hid, -⟩ := mem_demandsOn (hlist ▸ List.mem_cons_self)
        have hfree := (hsettles request hmem).definition?_of_mem_route hformed hid
        rw [← hlist]
        refine (NameRecord.afterDemands_perm (hfloor.name id).origin hfree
          (hfloor.formed.known id) hdemands fun demand hdemand => ?_).symm
        obtain ⟨request, hmem, hid, heq⟩ := mem_demandsOn hdemand
        exact heq ▸ hmet request hmem id hid
  refine ⟨quiet_ensureAll hformed hsettles' definer hfloor.formed
    (fun id => (hfloor.name id).origin) fun request hmem =>
      hmet request (hperm.mem_iff.mpr hmem), ?_⟩
  exact ⟨hother.size_names.trans hfloor.size_names.symm, hother.scopes.trans hfloor.scopes.symm,
    fun id => hname id ▸ .refl _, fun id => .inl (congrArg NameRecord.mustUnbox (hname id))⟩

/-- In a tree that operations have made, demands on names that do not lead to definitions may be
made in any order.  If no conflict is reported in one order, none is in any other, and the same is
possible for each name and the same values are needed unboxed; if a conflict is reported in one
order, some conflict is in every order. -/
theorem demands_commute (own : σ → σ → Prop) {start session : Session σ} (hempty : start.tree = ∅)
    (hoperated : start.Operated own session) (definer : Definer σ) (file : String)
    {requests others : List Request} (hperm : requests.Perm others)
    (hsettles : ∀ request ∈ requests, session.tree.Settles request.name) :
    let fresh := session.reporting (.new file)
    let first := ((ensureAll definer requests).run fresh).2
    let second := ((ensureAll definer others).run fresh).2
    (first.reporter.success = true → second.reporter.success = true ∧
      ∀ id, second.tree.possible id = first.tree.possible id ∧
        second.tree.mustUnbox id = first.tree.mustUnbox id) ∧
    (first.reporter.success = false → second.reporter.success = false) := by
  intro fresh first second
  have hformed : fresh.tree.Formed := hoperated.formed hempty
  have hcounts : fresh.reporter.Counts := Reporter.counts_new file
  have hsuccess : ∀ session : Session σ, session.reporter.success = true ↔
      session.reporter.report.totalErrors = 0 := fun session => by
    simp [Reporter.success, Report.hasErrors]
  have hsettles' : ∀ request ∈ others, fresh.tree.Settles request.name :=
    fun request hmem => hsettles request (hperm.mem_iff.mpr hmem)
  have hquiet : ∀ {final : Session σ}, final.reporter = fresh.reporter →
      final.reporter.success = true := fun heq => by rw [heq]; rfl
  refine ⟨fun hfirst => ?_, fun hfirst => ?_⟩
  · obtain ⟨hreporter, hakin⟩ := ensureAll_perm hformed hcounts definer hperm hsettles
      ((hsuccess first).mp hfirst)
    exact ⟨hquiet hreporter, fun id => ⟨hakin.possible id,
      hakin.mustUnbox_eq (ensureAll_narrowed hformed hsettles definer).formed id⟩⟩
  · rw [← Bool.not_eq_true] at hfirst ⊢
    intro hsecond
    obtain ⟨hreporter, -⟩ := ensureAll_perm hformed hcounts definer hperm.symm hsettles'
      ((hsuccess second).mp hsecond)
    exact hfirst (hquiet hreporter)

/-- A scope in which a replaced value has a name, one inside of it, and one that delegates inside of
that. -/
def layered : Session Unit :=
  let rooted : Session Unit := ⟨(∅ : ScopeTree).openRoot .nowhere true, .new "unit", [], ()⟩
  let named := rooted.withTree (rooted.tree.nameReplaced ⟨0⟩ "a")
  let inner := named.withTree (named.tree.openInside ⟨0⟩ .nowhere false)
  inner.withTree (inner.tree.openInside ⟨1⟩ .nowhere true)

/-- Demands on a delegated name, on the masked one behind it and on the one that is masked. -/
def mixed : List Request :=
  [⟨⟨2⟩, .number, true⟩, ⟨⟨0⟩, {.int} ∪ {.unit}, false⟩, ⟨⟨1⟩, {.int}, false⟩]

/-- A name is looked up from the innermost scope, and demands are made on all that has been found on
the way. -/
theorem demands_commute_mixed :
    let definer : Definer Unit := fun _ demanded _ => pure demanded
    let session := ((lookup definer ⟨2⟩ ["a"] .nowhere).run layered).2
    let fresh := session.reporting (.new "unit")
    let first := ((ensureAll definer mixed).run fresh).2
    let second := ((ensureAll definer mixed.reverse).run fresh).2
    (first.reporter.success = true ∧ first.tree.possible ⟨2⟩ = {.int}) ∧
      Session.Operated (fun _ _ => False) ⟨∅, .new "unit", [], ()⟩ session ∧
        mixed.Perm mixed.reverse ∧ (∀ request ∈ mixed, session.tree.Settles request.name) ∧
          second.reporter.success = true ∧ second.tree.possible ⟨2⟩ = first.tree.possible ⟨2⟩ := by
  intro definer session fresh first second
  have hlayered : Session.Operated (fun _ _ => False) ⟨∅, .new "unit", [], ()⟩ layered :=
    have hrooted := Session.Operated.openRoot ⟨∅, .new "unit", [], ()⟩ .nowhere true
    have hnamed := hrooted.trans (.nameReplaced _ ⟨0⟩ "a")
    have hinner := hnamed.trans (.openInside _ (by decide) .nowhere false)
    hinner.trans (.openInside _ (by decide) .nowhere true)
  have hsession := hlayered.trans (.lookup layered definer (fun _ _ _ later _ _ => .refl later)
    ⟨2⟩ ["a"] .nowhere)
  have hmasked : session.tree.Settles ⟨1⟩ :=
    .masked (by decide +kernel : (session.tree.name ⟨1⟩).origin = .masked ⟨0⟩ .any)
  have hreplaced : session.tree.Settles ⟨0⟩ :=
    .replaced (by decide +kernel : (session.tree.name ⟨0⟩).origin = .replaced .any)
  have hdelegated : session.tree.Settles ⟨2⟩ :=
    .delegated (by decide +kernel : (session.tree.name ⟨2⟩).origin = .delegated ⟨1⟩) hmasked
  have hsettles : ∀ request ∈ mixed, session.tree.Settles request.name := by
    simp [mixed, hmasked, hreplaced, hdelegated]
  have hperm : mixed.Perm mixed.reverse := (List.reverse_perm mixed).symm
  have hquiet : first.reporter.success = true := by decide +kernel
  obtain ⟨hother, hsame⟩ :=
    (demands_commute (fun _ _ => False) rfl hsession definer "unit" hperm hsettles).1 hquiet
  exact ⟨⟨hquiet, by decide +kernel⟩, hsession, hperm, hsettles, hother, (hsame ⟨2⟩).1⟩

end ScopeM

end FrameLang
