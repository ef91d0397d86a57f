import FrameLang.Proofs.Scope.Steps

/-!
# Narrowing

What is possible for a name is what is left of it and of the masks in front of it.
Whatever operations do, less and less of it is left (`ScopeTree.Narrows`).

A mask and its source may come to have nothing in common, so nothing may be possible for
an inherited name.  It takes both for that: something is left of each mask, and something
is possible for each name without a mask in front of it (`ScopeTree.Viable`).

## Strategy

What is possible for a name depends on other names.  So that it never grows is shown for
all names of two trees at once, by induction on the position of the name, from the fact
that no record ever comes to allow more (`possible_subset_of_grows`).
-/

namespace FrameLang

namespace ScopeTree

variable {tree before after third : ScopeTree}

/-- For the names that are there already, less comes to be possible, and a value that is needed
unboxed stays needed unboxed. -/
structure Narrows (before after : ScopeTree) : Prop where
  possible : ∀ id, id.index < before.names.size → after.possible id ⊆ before.possible id
  mustUnbox : ∀ id, id.index < before.names.size → before.mustUnbox id = true →
    after.mustUnbox id = true

/-- A name that is not inherited, or delegated to one that gets by without masks. -/
inductive Unmasked (tree : ScopeTree) : NameId → Prop where
  | own {id : NameId} (h : (tree.name id).origin.source? = none) : Unmasked tree id
  | delegated {id source : NameId} (h : (tree.name id).origin = .delegated source)
      (hsource : Unmasked tree source) : Unmasked tree id

/-- Something is possible for each name that gets by without masks, and something is left of
each mask. -/
structure Viable (tree : ScopeTree) : Prop where
  unmasked : ∀ id, tree.Unmasked id → tree.possible id ≠ ∅
  mask : ∀ id source mask, (tree.name id).origin = .masked source mask → mask ≠ ∅

/-! ## Well-formed trees -/

theorem possible_eq_known {id : NameId} (h : (tree.name id).origin.source? = none) :
    tree.possible id = (tree.name id).origin.known := by
  rw [possible]
  cases horigin : (tree.name id).origin with
  | masked source mask => rw [horigin] at h; cases h
  | delegated source => rw [horigin] at h; cases h
  | _ => rfl

theorem Formed.viable (h : tree.Formed) : tree.Viable where
  unmasked id hunmasked := by
    induction hunmasked with
    | own hsource =>
        rw [possible_eq_known hsource]
        exact h.known _
    | delegated horigin hsource ih =>
        rw [possible_of_delegated h horigin]
        exact ih
  mask id source mask horigin := by
    have hknown := h.known id
    rwa [horigin] at hknown

theorem mustUnbox_of_delegated (hformed : tree.Formed) {id source : NameId}
    (h : (tree.name id).origin = .delegated source) :
    tree.mustUnbox id = ((tree.name id).mustUnbox || tree.mustUnbox source) := by
  have hlt := (hformed.source id source (by rw [h]; rfl)).1
  rw [mustUnbox, h]
  exact congrArg ((tree.name id).mustUnbox || ·) (dif_pos hlt)

theorem mustUnbox_of_not_delegated {id : NameId}
    (h : ∀ source, (tree.name id).origin ≠ .delegated source) :
    tree.mustUnbox id = (tree.name id).mustUnbox := by
  rw [mustUnbox]
  cases horigin : (tree.name id).origin with
  | delegated source => exact absurd horigin (h source)
  | _ => exact Bool.or_false _

/-- What is needed unboxed stays needed unboxed, as long as records grow. -/
theorem mustUnbox_of_grows (hformed : before.Formed) (hformed' : after.Formed)
    (hname : ∀ id, id.index < before.names.size → (before.name id).Grows (after.name id))
    {id : NameId} (h : before.mustUnbox id = true) (hid : id.index < before.names.size) :
    after.mustUnbox id = true := by
  induction id using NameId.strongInduction with
  | step id ih =>
      have hrecord := hname id hid
      by_cases hdelegates : ∃ source, (before.name id).origin = .delegated source
      · obtain ⟨source, horigin⟩ := hdelegates
        have hlt := (hformed.source id source (by rw [horigin]; rfl)).1
        have hafter := hrecord.origin.delegated_iff.mpr horigin
        rw [mustUnbox_of_delegated hformed horigin, Bool.or_eq_true] at h
        rw [mustUnbox_of_delegated hformed' hafter, Bool.or_eq_true]
        exact h.imp hrecord.mustUnbox
          fun hsource => ih source hlt hsource (Nat.lt_trans hlt hid)
      · have hbefore : ∀ source, (before.name id).origin ≠ .delegated source :=
          fun source horigin => hdelegates ⟨source, horigin⟩
        have hafter : ∀ source, (after.name id).origin ≠ .delegated source :=
          fun source horigin => hbefore source (hrecord.origin.delegated_iff.mp horigin)
        rw [mustUnbox_of_not_delegated hbefore] at h
        rw [mustUnbox_of_not_delegated hafter]
        exact hrecord.mustUnbox h

theorem Retains.narrows (h : before.Retains after) (hformed : before.Formed)
    (hformed' : after.Formed) : before.Narrows after where
  possible id _ := possible_subset_of_grows hformed hformed' h.name id
  mustUnbox _ hid hunbox := mustUnbox_of_grows hformed hformed' h.name hunbox hid

end ScopeTree

/-! ## Runs -/

namespace Session

variable {σ : Type} {own : σ → σ → Prop} {before after : Session σ}

/-- A step that narrows, to a tree that is viable. -/
structure Narrowing (own : σ → σ → Prop) (before after : Session σ) : Prop where
  step : before.Step own after
  narrows : before.tree.Narrows after.tree
  viable : after.tree.Viable

theorem Step.narrowing (h : before.Step own after) (hformed : before.tree.Formed) :
    before.Narrowing own after where
  step := h
  narrows := h.retains.narrows hformed (h.formed hformed)
  viable := (h.formed hformed).viable

/-- Each step of a run narrows. -/
theorem Runs.narrowing (h : before.Runs own after) (hformed : before.tree.Formed) :
    Relation.ReflTransGen (Narrowing own) before after := by
  induction h with
  | refl => exact .refl
  | tail hruns hstep ih => exact ih.tail (hstep.narrowing (Runs.formed hruns hformed))

/-- A run narrows from its beginning to its end. -/
theorem Runs.narrows (h : before.Runs own after) (hformed : before.tree.Formed) :
    before.tree.Narrows after.tree :=
  (Runs.retains h).narrows hformed (Runs.formed h hformed)

/-- Whatever operations make of the empty tree is well formed. -/
theorem Operated.formed (h : before.Operated own after) (hempty : before.tree = ∅) :
    after.tree.Formed := by
  have hformed : before.tree.Formed := hempty ▸ ScopeTree.formed_empty
  exact Runs.formed (h.runs hformed) hformed

end Session

end FrameLang
