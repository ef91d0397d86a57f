import FrameLang.Proofs.Scope.Ownership

/-!
# Where demands end

A delegated name hands the demands on it on, and its source may do the same.  The
name at which they end is the *bearer* of the name (`ScopeTree.bearer`), and what
is known of the bearer is what the demands have left of it (`ScopeTree.held`).

A demand has been met (`ScopeTree.Met`) when what is known of the bearer agrees
with it altogether.  A bearer that hands demands on to a definition is different: it
keeps what it knows even if that has nothing to do with the demand.  In either case
the demand has no effect if it is made again (`Origin.narrow_of_met`).
-/

namespace FrameLang

/-! ## Sets of kinds -/

namespace Kinds

variable {first second third : Kinds}

theorem subset_refl (kinds : Kinds) : kinds ⊆ kinds :=
  subset_iff.mpr fun _ hkind => hkind

theorem subset_antisymm (h : first ⊆ second) (h' : second ⊆ first) : first = second :=
  ext fun kind => ⟨subset_iff.mp h kind, subset_iff.mp h' kind⟩

theorem inter_subset_right (first second : Kinds) : first ∩ second ⊆ second :=
  subset_iff.mpr fun _ hkind => (mem_inter.mp hkind).2

theorem inter_eq_self (h : first ⊆ second) : first ∩ second = first := h

theorem meets_of_subset (h : first ⊆ second) (hne : first ≠ ∅) : first.meets second = true := by
  obtain ⟨kind, hkind⟩ := ne_empty_iff.mp hne
  exact meets_iff.mpr ⟨kind, hkind, subset_iff.mp h kind hkind⟩

theorem meets_comm (first second : Kinds) : first.meets second = second.meets first := by
  rw [Bool.eq_iff_iff, meets_iff, meets_iff]
  exact exists_congr fun _ => And.comm

/-- What has nothing in common with a set does not come to have anything in common with it. -/
theorem not_meets_of_subset (h : first ⊆ second) (hnot : second.meets third = false) :
    first.meets third = false := by
  rw [← Bool.not_eq_true, meets_iff] at hnot ⊢
  rintro ⟨kind, hkind, hthird⟩
  exact hnot ⟨kind, subset_iff.mp h kind hkind, hthird⟩

theorem narrow_subset_or (known evidence : Kinds) :
    known.narrow evidence ⊆ evidence ∨ (known.narrow evidence).meets evidence = false := by
  unfold narrow
  split
  · exact .inl (inter_subset_right known evidence)
  · next hnot => exact .inr (Bool.eq_false_iff.mpr hnot)

/-- Evidence that agrees with all that is known, or with nothing of it, is no news. -/
theorem narrow_eq_self {known evidence : Kinds}
    (h : known ⊆ evidence ∨ known.meets evidence = false) : known.narrow evidence = known := by
  unfold narrow
  rcases h with hsubset | hnot
  · split
    · exact inter_eq_self hsubset
    · rfl
  · rw [if_neg (by simp [hnot])]

/-- Evidence that does not go beyond what is known is all that is left of it. -/
theorem narrow_of_subset {known evidence : Kinds} (h : evidence ⊆ known) (hne : evidence ≠ ∅) :
    known.narrow evidence = evidence := by
  rw [narrow, meets_comm, if_pos (meets_of_subset h hne)]
  ext kind
  rw [mem_inter]
  exact ⟨And.right, fun hkind => ⟨subset_iff.mp h kind hkind, hkind⟩⟩

end Kinds

/-! ## Origins -/

namespace Origin

/-- What is known with an origin agrees with a demand, or belongs to a definition and has
nothing to do with the demand. -/
def Met (demanded : Kinds) : Origin → Prop
  | free known | replaced known | masked _ known => known ⊆ demanded
  | bound _ known => known ⊆ demanded ∨ known.meets demanded = false
  | delegated _ | junk => True

/-- The definition that a name is bound to. -/
def definition? : Origin → Option NodeId
  | bound node _ => some node
  | _ => none

@[simp] theorem definition?_narrow (origin : Origin) (demanded : Kinds) :
    (origin.narrow demanded).definition? = origin.definition? := by
  cases origin <;> rfl

theorem Narrows.definition? {before after : Origin} (h : before.Narrows after) :
    after.definition? = before.definition? := by
  cases h <;> rfl

theorem Narrows.known {before after : Origin} (h : before.Narrows after) :
    before.known.Narrows after.known := by
  cases h with
  | delegated => exact .refl _
  | junk => exact .refl _
  | _ hknown => exact hknown

theorem definition?_eq_some_iff {origin : Origin} {node : NodeId} :
    origin.definition? = some node ↔ ∃ kinds, origin = .bound node kinds := by
  cases origin <;> simp [definition?]

/-- An origin that does not hand demands on to a definition has none. -/
theorem definition?_of_answer {origin : Origin} {demanded : Kinds}
    (h : ∀ node, origin.answer demanded ≠ .define node) : origin.definition? = none := by
  cases origin with
  | bound node kinds => exact absurd rfl (h node)
  | _ => rfl

theorem Met.narrows {before after : Origin} {demanded : Kinds} (h : before.Met demanded)
    (hnarrows : before.Narrows after) : after.Met demanded := by
  cases hnarrows with
  | free hknown => exact Kinds.subset_trans hknown.subset h
  | replaced hknown => exact Kinds.subset_trans hknown.subset h
  | masked hknown => exact Kinds.subset_trans hknown.subset h
  | bound hknown =>
      exact h.imp (Kinds.subset_trans hknown.subset) (Kinds.not_meets_of_subset hknown.subset)
  | delegated => trivial
  | junk => trivial

/-- A demand that has not been refused has been met. -/
theorem met_narrow {origin : Origin} {demanded : Kinds}
    (h : ∀ known, origin.answer demanded ≠ .refused known) :
    (origin.narrow demanded).Met demanded := by
  have hof : ∀ known : Kinds, Answer.of known demanded ≠ .refused known →
      known.narrow demanded ⊆ demanded := by
    intro known hnot
    unfold Answer.of at hnot
    unfold Kinds.narrow
    split at hnot
    · next hmeets =>
      rw [if_pos hmeets]
      exact Kinds.inter_subset_right known demanded
    · exact absurd rfl hnot
  cases origin with
  | free known => exact hof known (h known)
  | replaced known => exact hof known (h known)
  | masked source mask => exact hof mask (h mask)
  | bound node known => exact known.narrow_subset_or demanded
  | delegated source => trivial
  | junk => trivial

/-- A demand that has been met has no effect if it is made again. -/
theorem narrow_of_met {origin : Origin} {demanded : Kinds} (h : origin.Met demanded) :
    origin.narrow demanded = origin := by
  cases origin with
  | free known => rw [narrow, Kinds.narrow_eq_self (.inl h)]
  | replaced known => rw [narrow, Kinds.narrow_eq_self (.inl h)]
  | masked source mask => rw [narrow, Kinds.narrow_eq_self (.inl h)]
  | bound node known => rw [narrow, Kinds.narrow_eq_self h]
  | delegated source => rfl
  | junk => rfl

theorem known_narrow {origin : Origin} (hlive : origin ≠ .junk)
    (hown : ∀ source, origin ≠ .delegated source) (demanded : Kinds) :
    (origin.narrow demanded).known = origin.known.narrow demanded := by
  cases origin with
  | delegated source => exact absurd rfl (hown source)
  | junk => exact absurd rfl hlive
  | _ => rfl

end Origin

/-! ## Bearers -/

namespace ScopeTree

variable {tree before after : ScopeTree}

/-- The name at which the demands on a name end. -/
def bearer (tree : ScopeTree) (id : NameId) : NameId :=
  match (tree.name id).origin with
  | .delegated source => if _h : source.index < id.index then tree.bearer source else id
  | _ => id
termination_by id.index

/-- What is known of a name where the demands on it end. -/
def held (tree : ScopeTree) (id : NameId) : Kinds := (tree.name (tree.bearer id)).origin.known

/-- A demand on a name has been met. -/
def Met (tree : ScopeTree) (id : NameId) (demanded : Kinds) : Prop :=
  (tree.name (tree.bearer id)).origin.Met demanded

theorem bearer_of_delegated (hformed : tree.Formed) {id source : NameId}
    (h : (tree.name id).origin = .delegated source) : tree.bearer id = tree.bearer source := by
  have hlt := (hformed.source id source (by rw [h]; rfl)).1
  rw [bearer, h]
  exact dif_pos hlt

theorem bearer_of_not_delegated {id : NameId}
    (h : ∀ source, (tree.name id).origin ≠ .delegated source) : tree.bearer id = id := by
  rw [bearer]
  cases horigin : (tree.name id).origin with
  | delegated source => exact absurd horigin (h source)
  | _ => rfl

/-- Whatever is shared by a delegated name and its source is shared by a name and its bearer. -/
theorem bearer_induction (hformed : tree.Formed) {motive : NameId → NameId → Prop}
    (hself : ∀ id, (∀ source, (tree.name id).origin ≠ .delegated source) → motive id id)
    (hdelegated : ∀ id source bearer, (tree.name id).origin = .delegated source →
      motive source bearer → motive id bearer) (id : NameId) : motive id (tree.bearer id) := by
  induction id using NameId.strongInduction with
  | step id ih =>
      by_cases hdelegates : ∃ source, (tree.name id).origin = .delegated source
      · obtain ⟨source, horigin⟩ := hdelegates
        have hlt := (hformed.source id source (by rw [horigin]; rfl)).1
        rw [bearer_of_delegated hformed horigin]
        exact hdelegated id source _ horigin (ih source hlt)
      · have hnot : ∀ source, (tree.name id).origin ≠ .delegated source :=
          fun source horigin => hdelegates ⟨source, horigin⟩
        rw [bearer_of_not_delegated hnot]
        exact hself id hnot

theorem not_delegated_bearer (hformed : tree.Formed) (id source : NameId) :
    (tree.name (tree.bearer id)).origin ≠ .delegated source :=
  bearer_induction hformed
    (motive := fun _ bearer => ∀ source, (tree.name bearer).origin ≠ .delegated source)
    (fun _ hnot => hnot) (fun _ _ _ _ hbearer => hbearer) id source

theorem bearer_le (hformed : tree.Formed) (id : NameId) : (tree.bearer id).index ≤ id.index :=
  bearer_induction hformed (motive := fun id bearer => bearer.index ≤ id.index)
    (fun _ _ => Nat.le_refl _)
    (fun id source _ horigin hle =>
      Nat.le_trans hle (Nat.le_of_lt (hformed.source id source (by rw [horigin]; rfl)).1)) id

theorem isJunk_bearer (hformed : tree.Formed) (id : NameId) :
    tree.isJunk (tree.bearer id) = tree.isJunk id :=
  bearer_induction hformed (motive := fun id bearer => tree.isJunk bearer = tree.isJunk id)
    (fun _ _ => rfl)
    (fun id source _ horigin hbearer => by
      have hlive : tree.isJunk id = false := by
        rw [isJunk, NameRecord.isJunk_eq_false, horigin]
        simp
      rw [hbearer, hlive, (hformed.source id source (by rw [horigin]; rfl)).2.1]) id

theorem definition?_bearer (hformed : tree.Formed) (id : NameId) :
    tree.definition? id = (tree.name (tree.bearer id)).origin.definition? :=
  bearer_induction hformed
    (motive := fun id bearer => tree.definition? id = (tree.name bearer).origin.definition?)
    (fun id hnot => by
      rw [definition?]
      cases horigin : (tree.name id).origin with
      | delegated source => exact absurd horigin (hnot source)
      | _ => rfl)
    (fun id source _ horigin hbearer => by
      rw [definition?_of_delegated hformed horigin, hbearer]) id

theorem possible_of_delegated (hformed : tree.Formed) {id source : NameId}
    (h : (tree.name id).origin = .delegated source) : tree.possible id = tree.possible source := by
  have hlt := (hformed.source id source (by rw [h]; rfl)).1
  rw [possible, h]
  exact dif_pos hlt

theorem possible_of_masked (hformed : tree.Formed) {id source : NameId} {mask : Kinds}
    (h : (tree.name id).origin = .masked source mask) :
    tree.possible id = tree.possible source ∩ mask := by
  have hlt := (hformed.source id source (by rw [h]; rfl)).1
  rw [possible, h]
  exact dif_pos hlt

theorem possible_bearer (hformed : tree.Formed) (id : NameId) :
    tree.possible (tree.bearer id) = tree.possible id :=
  bearer_induction hformed (motive := fun id bearer => tree.possible bearer = tree.possible id)
    (fun _ _ => rfl)
    (fun id source _ horigin hbearer => by
      rw [hbearer, possible_of_delegated hformed horigin]) id

/-- What is possible is part of what is known where the demands end. -/
theorem possible_subset_held (hformed : tree.Formed) (id : NameId) :
    tree.possible id ⊆ tree.held id := by
  rw [← possible_bearer hformed]
  unfold held
  cases horigin : (tree.name (tree.bearer id)).origin with
  | delegated source => exact absurd horigin (not_delegated_bearer hformed id source)
  | masked source mask =>
      rw [possible_of_masked hformed horigin]
      exact Kinds.inter_subset_right _ _
  | _ =>
      rw [possible, horigin]
      exact Kinds.subset_refl _

/-! ## Trees with the same origins -/

theorem bearer_congr (h : ∀ id, (after.name id).origin = (before.name id).origin) (id : NameId) :
    after.bearer id = before.bearer id := by
  induction id using NameId.strongInduction with
  | step id ih =>
      rw [bearer, bearer, h]
      cases (before.name id).origin with
      | delegated source =>
          dsimp only
          split
          · next hlt => exact ih source hlt
          · rfl
      | _ => rfl

theorem possible_congr (h : ∀ id, (after.name id).origin = (before.name id).origin) (id : NameId) :
    after.possible id = before.possible id := by
  induction id using NameId.strongInduction with
  | step id ih =>
      rw [possible, possible, h]
      cases (before.name id).origin with
      | masked source mask | delegated source =>
          dsimp only
          split
          · next hlt => rw [ih source hlt]
          · rfl
      | _ => rfl

/-! ## Growing -/

theorem Grows.bearer (hformed : before.Formed) (hformed' : after.Formed)
    (hgrows : before.Grows after) {id : NameId} (hid : id.index < before.names.size) :
    after.bearer id = before.bearer id := by
  induction id using NameId.strongInduction with
  | step id ih =>
      have hnarrows := (hgrows.name id hid).origin
      by_cases hdelegates : ∃ source, (before.name id).origin = .delegated source
      · obtain ⟨source, horigin⟩ := hdelegates
        have hlt := (hformed.source id source (by rw [horigin]; rfl)).1
        have hafter := hnarrows.delegated_iff.mpr horigin
        rw [bearer_of_delegated hformed horigin, bearer_of_delegated hformed' hafter]
        exact ih source hlt (Nat.lt_trans hlt hid)
      · rw [bearer_of_not_delegated fun source horigin => hdelegates ⟨source, horigin⟩]
        exact bearer_of_not_delegated fun source hafter =>
          hdelegates ⟨source, hnarrows.delegated_iff.mp hafter⟩

theorem Grows.origin_bearer (hformed : before.Formed) (hformed' : after.Formed)
    (hgrows : before.Grows after) {id : NameId} (hid : id.index < before.names.size) :
    (before.name (before.bearer id)).origin.Narrows (after.name (after.bearer id)).origin := by
  rw [hgrows.bearer hformed hformed' hid]
  exact (hgrows.name _ (Nat.lt_of_le_of_lt (bearer_le hformed id) hid)).origin

theorem Met.grows (hformed : before.Formed) (hformed' : after.Formed) (hgrows : before.Grows after)
    {id : NameId} (hid : id.index < before.names.size) {demanded : Kinds}
    (h : before.Met id demanded) : after.Met id demanded :=
  Origin.Met.narrows h (hgrows.origin_bearer hformed hformed' hid)

/-- Whatever was possible and is not any more will not be again, as long as records grow. -/
theorem possible_subset_of_grows (hformed : before.Formed) (hformed' : after.Formed)
    (hname : ∀ id, id.index < before.names.size → (before.name id).Grows (after.name id))
    (id : NameId) : after.possible id ⊆ before.possible id := by
  induction id using NameId.strongInduction with
  | step id ih =>
      have hany : ∀ kinds : Kinds, kinds ⊆ .any := fun kinds => Kinds.subset_iff.mpr (by simp)
      by_cases hid : id.index < before.names.size
      · have hnarrows := (hname id hid).origin
        generalize hbefore : (before.name id).origin = old at hnarrows
        generalize hafter : (after.name id).origin = new at hnarrows
        have hsource : ∀ source, old.source? = some source →
            after.possible source ⊆ before.possible source := by
          intro source hold
          rw [← hbefore] at hold
          exact ih source (hformed.source id source hold).1
        cases hnarrows with
        | free hknown | replaced hknown | bound hknown =>
            rw [possible, possible, hbefore, hafter]
            exact hknown.subset
        | masked hknown =>
            rw [possible_of_masked hformed hbefore, possible_of_masked hformed' hafter,
              Kinds.subset_iff]
            intro kind hkind
            obtain ⟨hpossible, hmask⟩ := Kinds.mem_inter.mp hkind
            exact Kinds.mem_inter.mpr ⟨Kinds.subset_iff.mp (hsource _ rfl) kind hpossible,
              Kinds.subset_iff.mp hknown.subset kind hmask⟩
        | delegated =>
            rw [possible_of_delegated hformed hbefore, possible_of_delegated hformed' hafter]
            exact hsource _ rfl
        | junk =>
            rw [possible, possible, hbefore, hafter]
            exact Kinds.subset_refl _
      -- a name that was not there may have had any kinds
      · have hjunk : before.possible id = .any := by
          rw [possible, name_of_size_le (Nat.le_of_not_lt hid)]
          rfl
        rw [hjunk]
        exact hany _

theorem Grows.possible_subset (hformed : before.Formed) (hformed' : after.Formed)
    (hgrows : before.Grows after) (id : NameId) : after.possible id ⊆ before.possible id :=
  possible_subset_of_grows hformed hformed' hgrows.name id

end ScopeTree

end FrameLang
