import FrameLang.Proofs.Scope.Bearers

/-!
# Where values come from

A name that is inherited has the value of its source, and in the end the value is that of a
definition, or it comes from outside the unit.  The definition, if there is one, is the
*supplier* of the name (`ScopeTree.supplier?`).

What a name can be depends on the records between it and its supplier, and on what the
supplier has proven.  So two trees that differ in nothing but what definitions have proven
agree on all names without a supplier (`ScopeTree.Agrees.possible`).
-/

namespace FrameLang

namespace ScopeTree

variable {first second : ScopeTree}

/-- The definition that the value of a name comes from, through however many scopes the name is
inherited. -/
def supplier? (tree : ScopeTree) (id : NameId) : Option NodeId :=
  match (tree.name id).origin.source? with
  | some source => if _h : source.index < id.index then tree.supplier? source else none
  | none => (tree.name id).origin.definition?
termination_by id.index

theorem supplier?_of_source {tree : ScopeTree} (hformed : tree.Formed) {id source : NameId}
    (h : (tree.name id).origin.source? = some source) :
    tree.supplier? id = tree.supplier? source := by
  rw [supplier?, h]
  exact dif_pos (hformed.source id source h).1

/-- Names that agree in what is known of them, up to what definitions have proven. -/
structure Agrees (first second : ScopeTree) : Prop where
  unbound : ∀ id, (first.name id).origin.definition? = none →
    (second.name id).origin = (first.name id).origin
  definition? : ∀ id,
    (second.name id).origin.definition? = (first.name id).origin.definition?

/-- What no definition supplies is the same. -/
theorem Agrees.possible (h : first.Agrees second) {id : NameId} (hid : first.supplier? id = none) :
    second.possible id = first.possible id := by
  -- along the sources, none of which has a supplier either
  induction id using NameId.strongInduction with
  | step id ih =>
      have hfree : (first.name id).origin.definition? = none := by
        rw [supplier?] at hid
        cases horigin : (first.name id).origin with
        | bound node kinds =>
            rw [horigin] at hid
            exact hid
        | _ => rfl
      have hsource : ∀ source, (first.name id).origin.source? = some source →
          source.index < id.index → second.possible source = first.possible source := by
        intro source hsource hlt
        rw [supplier?, hsource] at hid
        dsimp only at hid
        rw [dif_pos hlt] at hid
        exact ih source hlt hid
      rw [ScopeTree.possible, ScopeTree.possible, h.unbound id hfree]
      cases horigin : (first.name id).origin with
      | masked source mask =>
          by_cases hlt : source.index < id.index
          · simp only [hlt, dite_true]
            rw [hsource source (by rw [horigin]; rfl) hlt]
          · simp only [hlt, dite_false]
      | delegated source =>
          by_cases hlt : source.index < id.index
          · simp only [hlt, dite_true]
            exact hsource source (by rw [horigin]; rfl) hlt
          · simp only [hlt, dite_false]
      | _ => rfl

theorem mustUnbox_eq (hneeded : ∀ id, (second.name id).mustUnbox = (first.name id).mustUnbox)
    (hdelegated : ∀ id source, (second.name id).origin = .delegated source ↔
      (first.name id).origin = .delegated source) (id : NameId) :
    second.mustUnbox id = first.mustUnbox id := by
  -- only a name that hands demands on asks anyone else
  have hstep : ∀ (tree : ScopeTree) (id : NameId),
      (∀ source, (tree.name id).origin ≠ .delegated source) →
        tree.mustUnbox id = (tree.name id).mustUnbox := by
    intro tree id hnot
    rw [mustUnbox]
    cases horigin : (tree.name id).origin with
    | delegated source => exact absurd horigin (hnot source)
    | _ => exact Bool.or_false _
  induction id using NameId.strongInduction with
  | step id ih =>
      by_cases hdelegates : ∃ source, (first.name id).origin = .delegated source
      · obtain ⟨source, horigin⟩ := hdelegates
        rw [mustUnbox, mustUnbox, hneeded, horigin, (hdelegated id source).mpr horigin]
        by_cases hlt : source.index < id.index
        · simp only [hlt, dite_true]
          rw [ih source hlt]
        · simp only [hlt, dite_false]
      · have hnot : ∀ source, (first.name id).origin ≠ .delegated source :=
          fun source horigin => hdelegates ⟨source, horigin⟩
        rw [hstep first id hnot, hstep second id fun source horigin =>
          hnot source ((hdelegated id source).mp horigin), hneeded]

end ScopeTree

end FrameLang
