import FrameLang.Proofs.Scope.Formed
import FrameLang.Scope.Demand
import Mathlib.Data.List.Basic

/-!
# The names of a scope

`ScopeTree.allNames` lists the names of a scope by going through its entries and
from each of them down through the longer names.  In a well-formed tree these are
the names that a scope owns (`ScopeTree.Owned`): its entries, and whatever is
longer than a name it owns.

A name that hands demands on to a definition has that definition behind it
(`ScopeTree.definition?`), and keeps it while the tree grows.
-/

namespace FrameLang

namespace Table

variable {κ α : Type} [DecidableEq κ]

/-- A table whose keys are distinct holds the values that can be found in it. -/
theorem mem_values_iff {table : Table κ α} (h : table.keys.Nodup) {value : α} :
    value ∈ table.values ↔ ∃ key, table.find? key = some value := by
  obtain ⟨entries⟩ := table
  simp only [values, keys, find?] at h ⊢
  induction entries with
  | nil => simp [findIn]
  | cons entry rest ih =>
      obtain ⟨hnotmem, hrest⟩ := List.nodup_cons.mp h
      rw [List.map_cons, List.mem_cons, ih hrest]
      constructor
      · rintro (rfl | ⟨key, hkey⟩)
        · exact ⟨entry.1, by simp [findIn]⟩
        · refine ⟨key, ?_⟩
          have hmem : key ∈ rest.map Prod.fst :=
            (mem_keys_iff ⟨rest⟩ key).mpr (by rw [find?, hkey]; rfl)
          have hne : ¬ entry.1 = key := fun heq => hnotmem (heq ▸ hmem)
          rw [findIn, if_neg hne, hkey]
      · rintro ⟨key, hkey⟩
        rw [findIn] at hkey
        split at hkey
        · exact .inl (Option.some.inj hkey).symm
        · exact .inr ⟨key, hkey⟩

end Table

namespace ScopeTree

variable {tree before after : ScopeTree}

/-! ## Descendants -/

/-- A name is another one, or is longer than it. -/
inductive Below (tree : ScopeTree) (id : NameId) : NameId → Prop where
  | refl : Below tree id id
  | child {between child : NameId} {component : String} (h : Below tree id between)
      (hchild : tree.child? between component = some child) : Below tree id child

theorem Below.trans {first second third : NameId} (h : tree.Below first second)
    (h' : tree.Below second third) : tree.Below first third := by
  induction h' with
  | refl => exact h
  | child _ hchild ih => exact .child ih hchild

/-- What is longer than a name is the name itself or goes through one of its children. -/
theorem Below.eq_or_child {id other : NameId} (h : tree.Below id other) :
    other = id ∨ ∃ child component, tree.child? id component = some child ∧
      tree.Below child other := by
  induction h with
  | refl => exact .inl rfl
  | child _ hchild ih =>
      rcases ih with rfl | ⟨first, component, hfirst, hbetween⟩
      · exact .inr ⟨_, _, hchild, .refl⟩
      · exact .inr ⟨first, component, hfirst, hbetween.child hchild⟩

theorem descendants_eq (h : tree.Formed) (id : NameId) :
    tree.descendants id = id :: (tree.name id).children.values.flatMap tree.descendants := by
  rw [descendants]
  congr 1
  refine List.flatMap_congr fun child hchild => ?_
  obtain ⟨component, hcomponent⟩ := (Table.mem_values_iff (h.nodup_children id)).mp hchild
  obtain ⟨hlt, hsize, -⟩ := h.child id component child hcomponent
  rw [dif_pos ⟨hlt, hsize⟩]

theorem mem_descendants (h : tree.Formed) {id other : NameId} :
    other ∈ tree.descendants id ↔ tree.Below id other := by
  -- names get longer towards the end of the tree
  induction hindex : tree.names.size - id.index using Nat.strongRecOn generalizing id with
  | ind index ih =>
      rw [descendants_eq h, List.mem_cons, List.mem_flatMap]
      have hchildren : ∀ child, child ∈ (tree.name id).children.values ↔
          ∃ component, tree.child? id component = some child := fun child =>
        Table.mem_values_iff (h.nodup_children id)
      have hbelow : ∀ child component, tree.child? id component = some child →
          (other ∈ tree.descendants child ↔ tree.Below child other) := by
        intro child component hchild
        obtain ⟨hlt, hsize, -⟩ := h.child id component child hchild
        exact ih _ (by omega) rfl
      constructor
      · rintro (rfl | ⟨child, hchild, hother⟩)
        · exact .refl
        · obtain ⟨component, hcomponent⟩ := (hchildren child).mp hchild
          have hother' := (hbelow child component hcomponent).mp hother
          exact (Below.refl.child hcomponent).trans hother'
      · intro hother
        rcases hother.eq_or_child with rfl | ⟨child, component, hchild, hchildother⟩
        · exact .inl rfl
        · exact .inr ⟨child, (hchildren child).mpr ⟨component, hchild⟩,
            (hbelow child component hchild).mpr hchildother⟩

/-! ## Ownership -/

/-- A name is an entry of a scope, or longer than one. -/
inductive Owned (tree : ScopeTree) (scope : ScopeId) : NameId → Prop where
  | entry {name : String} {id : NameId} (h : tree.meaning? scope name = some (some id)) :
      Owned tree scope id
  | child {id child : NameId} {component : String} (h : Owned tree scope id)
      (hchild : tree.child? id component = some child) : Owned tree scope child

theorem Owned.of_below {scope : ScopeId} {id other : NameId} (h : tree.Owned scope id)
    (hbelow : tree.Below id other) : tree.Owned scope other := by
  induction hbelow with
  | refl => exact h
  | child _ hchild ih => exact .child ih hchild

/-- The names of a scope are those that it owns. -/
theorem mem_allNames (h : tree.Formed) {scope : ScopeId} {id : NameId} :
    id ∈ tree.allNames scope ↔ tree.Owned scope id := by
  unfold allNames
  rw [List.mem_flatMap]
  constructor
  · rintro ⟨entry, hentry, hid⟩
    obtain ⟨name, hname⟩ := (Table.mem_values_iff (h.nodup_entries scope)).mp hentry
    cases entry with
    | none => cases hid
    | some start => exact (Owned.entry hname).of_below ((mem_descendants h).mp hid)
  · intro howned
    have hstart : ∃ name start, tree.meaning? scope name = some (some start) ∧
        tree.Below start id := by
      induction howned with
      | entry hname => exact ⟨_, _, hname, .refl⟩
      | child _ hchild ih =>
          obtain ⟨name, start, hname, hbelow⟩ := ih
          exact ⟨name, start, hname, hbelow.child hchild⟩
    obtain ⟨name, start, hname, hbelow⟩ := hstart
    exact ⟨some start, (Table.mem_values_iff (h.nodup_entries scope)).mpr ⟨name, hname⟩,
      (mem_descendants h).mpr hbelow⟩

theorem Owned.home (h : tree.Formed) {scope : ScopeId} {id : NameId}
    (howned : tree.Owned scope id) :
    tree.isJunk id = false ∧ (tree.name id).scope? = some scope := by
  induction howned with
  | entry hname =>
      obtain ⟨hjunk, hscope, -⟩ := h.entry _ _ _ hname
      exact ⟨hjunk, hscope⟩
  | child _ hchild ih =>
      obtain ⟨-, -, hjunk, hscope, -⟩ := h.child _ _ _ hchild
      exact ⟨hjunk.trans ih.1, hscope.trans ih.2⟩

/-- The longer names that a tree has stay where they are. -/
def KeepsChildren (before after : ScopeTree) : Prop :=
  ∀ id component child, before.child? id component = some child →
    after.child? id component = some child

theorem Owned.grows (hgrows : before.Grows after) (hchildren : before.KeepsChildren after)
    {scope : ScopeId} {id : NameId} (h : before.Owned scope id) : after.Owned scope id := by
  induction h with
  | entry hname => exact .entry (hgrows.meaning? hname)
  | child _ hchild ih => exact .child ih (hchildren _ _ _ hchild)

/-! ## Definitions -/

/-- The definition to which demands on a name are handed on in the end. -/
def definition? (tree : ScopeTree) (id : NameId) : Option NodeId :=
  match (tree.name id).origin with
  | .bound node _ => some node
  | .delegated source => if _h : source.index < id.index then tree.definition? source else none
  | _ => none
termination_by id.index

theorem definition?_of_bound {id : NameId} {node : NodeId} {kinds : Kinds}
    (h : (tree.name id).origin = .bound node kinds) : tree.definition? id = some node := by
  rw [definition?, h]

theorem definition?_of_delegated (hformed : tree.Formed) {id source : NameId}
    (h : (tree.name id).origin = .delegated source) :
    tree.definition? id = tree.definition? source := by
  have hlt := (hformed.source id source (by rw [h]; rfl)).1
  rw [definition?, h]
  exact dif_pos hlt

theorem definition?_of_not_handedOn {id : NameId} (demanded : Kinds)
    (hdefine : ∀ node, (tree.name id).origin.answer demanded ≠ .define node)
    (hpassOn : ∀ source, (tree.name id).origin.answer demanded ≠ .passOn source) :
    tree.definition? id = none := by
  rw [definition?]
  cases horigin : (tree.name id).origin with
  | bound node kinds => exact absurd (by rw [horigin]; rfl) (hdefine node)
  | delegated source => exact absurd (by rw [horigin]; rfl) (hpassOn source)
  | _ => rfl

theorem definition?_of_masked {id source : NameId} {mask : Kinds}
    (h : (tree.name id).origin = .masked source mask) : tree.definition? id = none := by
  rw [definition?, h]

theorem definition?_of_isJunk {id : NameId} (h : tree.isJunk id = true) :
    tree.definition? id = none := by
  have horigin : (tree.name id).origin = .junk := of_decide_eq_true h
  rw [definition?, horigin]

theorem Grows.definition? (hformed : before.Formed) (hgrows : before.Grows after) {id : NameId}
    (hid : id.index < before.names.size) : after.definition? id = before.definition? id := by
  induction id using NameId.strongInduction with
  | step id ih =>
      have hnarrows := (hgrows.name id hid).origin
      rw [ScopeTree.definition?, ScopeTree.definition?]
      cases horigin : (before.name id).origin with
      | delegated source =>
          rw [hnarrows.delegated_iff.mpr horigin]
          have hlt := (hformed.source id source (by rw [horigin]; rfl)).1
          simp only [hlt, dite_true]
          exact ih source hlt (Nat.lt_trans hlt hid)
      | _ =>
          rw [horigin] at hnarrows
          generalize (after.name id).origin = origin at hnarrows
          cases hnarrows
          rfl

end ScopeTree

end FrameLang
