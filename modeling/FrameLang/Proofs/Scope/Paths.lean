import FrameLang.Proofs.Scope.Extension
import FrameLang.Proofs.Scope.Ownership
import Mathlib.Data.List.Induction
import Mathlib.Data.List.Nodup

/-!
# Paths to names

In a tree whose history accounts for its tables every name has one place.  So there
is one path that leads to a name, from the entries of the name's own scope
(`ScopeTree.find?_unique`), and the record of the name says which one it is
(`ScopeTree.exists_find?`).  The names of all scopes together are the names of the
tree, each listed once (`ScopeTree.perm_allNames`).

## Strategy

A path that ends in a component leads to the name whose place is below the name that
the rest of the path leads to, or is an entry (`place_of_find?`).  Whatever is below
two different names has its place below both, so one of the two is below the other
(`Below.comparable`); this keeps the names that `ScopeTree.allNames` lists apart.
-/

namespace FrameLang

namespace Table

variable {κ α : Type} [DecidableEq κ]

/-- What is true of the values of any two distinct keys is true of any two values. -/
theorem pairwise_values {table : Table κ α} (h : table.keys.Nodup) {relation : α → α → Prop}
    (hrelation : ∀ key other value value', key ≠ other → table.find? key = some value →
      table.find? other = some value' → relation value value') :
    table.values.Pairwise relation := by
  rw [values, List.pairwise_map]
  rw [keys, List.Nodup, List.pairwise_map] at h
  refine h.imp_of_mem fun {first second} hfirst hsecond hne => ?_
  have hkeys : table.keys.Nodup := by rwa [keys, List.Nodup, List.pairwise_map]
  exact hrelation first.1 second.1 first.2 second.2 hne (find?_of_mem hkeys hfirst)
    (find?_of_mem hkeys hsecond)

end Table

namespace ScopeTree

variable {tree : ScopeTree}

/-! ## Following a path -/

theorem find?_singleton (tree : ScopeTree) (scope : ScopeId) (name : String) :
    tree.find? scope [name] = (tree.meaning? scope name).join := by
  show (tree.scope scope).local? name >>= pure = _
  rw [bind_pure]
  rfl

theorem find?_concat (tree : ScopeTree) (scope : ScopeId) {path : List String} (hne : path ≠ [])
    (last : String) :
    tree.find? scope (path ++ [last]) =
      (tree.find? scope path).bind fun id => tree.child? id last := by
  obtain ⟨first, rest, rfl⟩ := List.exists_cons_of_ne_nil hne
  rw [List.cons_append, find?, find?]
  cases (tree.scope scope).local? first with
  | none => rfl
  | some start =>
      show (rest ++ [last]).foldlM tree.child? start = (rest.foldlM tree.child? start).bind _
      rw [List.foldlM_append]
      refine congrArg (Option.bind _) (funext fun id => ?_)
      exact bind_pure (tree.child? id last)

/-- The last component of a path tells the place of the name that the path leads to. -/
theorem place_of_find? {scope : ScopeId} {path : List String} {last : String} {id : NameId}
    (h : tree.find? scope (path ++ [last]) = some id) :
    (path = [] ∧ tree.at? (.entry scope last) = some (some id)) ∨
      (path ≠ [] ∧ ∃ parent, tree.find? scope path = some parent ∧
        tree.at? (.child parent last) = some (some id)) := by
  by_cases hne : path = []
  · subst hne
    rw [List.nil_append, find?_singleton, Option.join_eq_some_iff] at h
    exact .inl ⟨rfl, h⟩
  · rw [find?_concat tree scope hne] at h
    obtain ⟨parent, hparent, hchild⟩ := Option.bind_eq_some_iff.mp h
    refine .inr ⟨hne, parent, hparent, ?_⟩
    rw [at?, hchild]
    rfl

theorem child?_of_at? {id child : NameId} {component : String}
    (h : tree.at? (.child id component) = some (some child)) :
    tree.child? id component = some child :=
  Option.map_injective (fun _ _ => Option.some.inj) (h : _ = (some child).map some)

/-- The history leads to the same names as the tables. -/
theorem Recorded.find?_history (h : tree.Recorded) (scope : ScopeId) (path : List String) :
    tree.history.find? scope path = tree.find? scope path := by
  have hchild : (fun id component => (tree.history.at? (.child id component)).join) =
      tree.child? := by
    funext id component
    rw [h.accounts, at?]
    cases tree.child? id component <;> rfl
  cases path with
  | nil => rfl
  | cons first rest =>
      rw [History.find?, find?, hchild, h.accounts]
      rfl

theorem Owned.lt_size {scope : ScopeId} {id : NameId} (h : tree.Owned scope id) :
    scope.index < tree.scopes.size := by
  induction h with
  | entry hmeaning => exact lt_size_of_meaning? hmeaning
  | child _ _ ih => exact ih

section Recorded

variable (hformed : tree.Formed) (hrecorded : tree.Recorded)
include hformed hrecorded

/-- A name that has not gone wrong is led to by the path that its record tells. -/
theorem exists_find? {id : NameId} (hlive : tree.isJunk id = false) :
    ∃ scope path, (tree.name id).scope? = some scope ∧ tree.find? scope path = some id ∧
      (tree.name id).path = ".".intercalate path := by
  -- a name that is one component longer comes later
  induction id using NameId.strongInduction with
  | step id ih =>
      obtain ⟨place, hplace⟩ := hrecorded.placed id hlive
      cases place with
      | entry scope name =>
          obtain ⟨-, hscope, hpath⟩ := hformed.entry scope name id hplace
          refine ⟨scope, [name], hscope, ?_, ?_⟩
          · rw [find?_singleton, show tree.meaning? scope name = some (some id) from hplace]
            rfl
          · rw [String.intercalate_singleton, hpath]
      | child parent component =>
          have hchild := child?_of_at? hplace
          obtain ⟨hlt, -, hjunk, hscope, hpath⟩ := hformed.child parent component id hchild
          obtain ⟨scope, path, hhome, hfind, hparent⟩ :=
            ih parent hlt (hjunk.symm.trans hlive)
          have hne : path ≠ [] := by
            rintro rfl
            cases hfind
          refine ⟨scope, path ++ [component], hscope.trans hhome, ?_, ?_⟩
          · rw [find?_concat tree scope hne, hfind]
            exact hchild
          · rw [String.intercalate_append_of_ne_nil hne (by simp), String.intercalate_singleton,
              hpath, hparent]

/-- A name that has not gone wrong belongs to a scope. -/
theorem exists_owned {id : NameId} (hlive : tree.isJunk id = false) :
    ∃ scope, tree.Owned scope id := by
  induction id using NameId.strongInduction with
  | step id ih =>
      obtain ⟨place, hplace⟩ := hrecorded.placed id hlive
      cases place with
      | entry scope name => exact ⟨scope, .entry hplace⟩
      | child parent component =>
          have hchild := child?_of_at? hplace
          obtain ⟨hlt, -, hjunk, -⟩ := hformed.child parent component id hchild
          obtain ⟨scope, howned⟩ := ih parent hlt (hjunk.symm.trans hlive)
          exact ⟨scope, howned.child hchild⟩

omit hformed in
/-- No two paths lead to the same name. -/
theorem find?_unique {scope other : ScopeId} {path path' : List String} {id : NameId}
    (h : tree.find? scope path = some id) (h' : tree.find? other path' = some id) :
    scope = other ∧ path = path' := by
  induction path using List.reverseRecOn generalizing path' id with
  | nil => cases h
  | append_singleton path last ih =>
      obtain rfl | ⟨front, back, rfl⟩ := List.eq_nil_or_concat' path'
      · cases h'
      · rcases place_of_find? h with ⟨rfl, hplace⟩ | ⟨hne, parent, hparent, hplace⟩
        · rcases place_of_find? h' with ⟨rfl, hplace'⟩ | ⟨-, parent', -, hplace'⟩
          · cases hrecorded.unique _ _ id hplace hplace'
            exact ⟨rfl, rfl⟩
          · cases hrecorded.unique _ _ id hplace hplace'
        · rcases place_of_find? h' with ⟨-, hplace'⟩ | ⟨-, parent', hparent', hplace'⟩
          · cases hrecorded.unique _ _ id hplace hplace'
          · cases hrecorded.unique _ _ id hplace hplace'
            obtain ⟨rfl, rfl⟩ := ih hparent hparent'
            exact ⟨rfl, rfl⟩

/-! ## Listing names -/

omit hrecorded in
theorem Below.index_le {id other : NameId} (h : tree.Below id other) : id.index ≤ other.index := by
  induction h with
  | refl => exact Nat.le_refl _
  | child _ hchild ih => exact Nat.le_trans ih (Nat.le_of_lt (hformed.child _ _ _ hchild).1)

omit hformed in
/-- Of two names that a third one is below, one is below the other. -/
theorem Below.comparable {first second id : NameId} (h : tree.Below first id)
    (h' : tree.Below second id) : tree.Below first second ∨ tree.Below second first := by
  induction h with
  | refl => exact .inr h'
  | @child between child component hbetween hchild ih =>
      cases h' with
      | refl => exact .inl (hbetween.child hchild)
      | @child between' _ component' hbetween' hchild' =>
          have hplace : tree.at? (.child between component) = some (some child) := by
            rw [at?, hchild]
            rfl
          have hplace' : tree.at? (.child between' component') = some (some child) := by
            rw [at?, hchild']
            rfl
          cases hrecorded.unique _ _ child hplace hplace'
          exact ih hbetween'

omit hformed in
/-- A name is not below another one if what it is a component longer than is not. -/
theorem not_below_of_place {first second : NameId} {place : Place}
    (hplace : tree.at? place = some (some second)) (hne : first ≠ second)
    (hparent : ∀ parent component, place = .child parent component → ¬ tree.Below first parent) :
    ¬ tree.Below first second := by
  intro hbelow
  cases hbelow with
  | refl => exact hne rfl
  | @child between _ component hbetween hlast =>
      have hlastplace : tree.at? (.child between component) = some (some second) := by
        rw [at?, hlast]
        rfl
      exact hparent between component (hrecorded.unique _ _ second hplace hlastplace) hbetween

omit hformed in
/-- Two names of which none is below the other have nothing below them in common. -/
theorem disjoint_descendants (hformed : tree.Formed) {first second : NameId}
    (h : ¬ tree.Below first second) (h' : ¬ tree.Below second first) :
    List.Disjoint (tree.descendants first) (tree.descendants second) := by
  intro other hother hother'
  rw [mem_descendants hformed] at hother hother'
  rcases hother.comparable hrecorded hother' with hbelow | hbelow
  · exact h hbelow
  · exact h' hbelow

theorem nodup_descendants (id : NameId) : (tree.descendants id).Nodup := by
  induction hindex : tree.names.size - id.index using Nat.strongRecOn generalizing id with
  | ind index ih =>
      have hvalues : ∀ child, child ∈ (tree.name id).children.values ↔
          ∃ component, tree.child? id component = some child := fun child =>
        Table.mem_values_iff (hformed.nodup_children id)
      -- no child comes before its parent, so no child is below another one
      have hapart : ∀ component component' child child', component ≠ component' →
          tree.child? id component = some child → tree.child? id component' = some child' →
            ¬ tree.Below child child' := by
        intro component component' child child' hne hchild hchild'
        have hplace : tree.at? (.child id component) = some (some child) := by
          rw [at?, hchild]
          rfl
        have hplace' : tree.at? (.child id component') = some (some child') := by
          rw [at?, hchild']
          rfl
        refine not_below_of_place hrecorded hplace' ?_ ?_
        · rintro rfl
          cases hrecorded.unique _ _ child hplace hplace'
          exact hne rfl
        · rintro parent last ⟨⟩ hbelow
          have hle := hbelow.index_le hformed
          have hlt := (hformed.child id component child hchild).1
          omega
      rw [descendants_eq hformed, List.nodup_cons, List.nodup_flatMap]
      refine ⟨?_, ?_, ?_⟩
      · rw [List.mem_flatMap]
        rintro ⟨child, hchild, hid⟩
        obtain ⟨component, hcomponent⟩ := (hvalues child).mp hchild
        have hle := ((mem_descendants hformed).mp hid).index_le hformed
        have hlt := (hformed.child id component child hcomponent).1
        omega
      · intro child hchild
        obtain ⟨component, hcomponent⟩ := (hvalues child).mp hchild
        obtain ⟨hlt, hsize, -⟩ := hformed.child id component child hcomponent
        exact ih (tree.names.size - child.index) (by omega) child rfl
      · refine Table.pairwise_values (hformed.nodup_children id) ?_
        intro component component' child child' hne hchild hchild'
        exact disjoint_descendants hrecorded hformed
          (hapart component component' child child' hne hchild hchild')
          (hapart component' component child' child (Ne.symm hne) hchild' hchild)

theorem nodup_allNames (scope : ScopeId) : (tree.allNames scope).Nodup := by
  have hapart : ∀ name name' start start', name ≠ name' →
      tree.meaning? scope name = some (some start) →
        tree.meaning? scope name' = some (some start') → ¬ tree.Below start start' := by
    intro name name' start start' hne hstart hstart'
    have hplace : tree.at? (.entry scope name) = some (some start) := hstart
    have hplace' : tree.at? (.entry scope name') = some (some start') := hstart'
    refine not_below_of_place hrecorded hplace' ?_ (fun _ _ heq => by cases heq)
    rintro rfl
    cases hrecorded.unique _ _ start hplace hplace'
    exact hne rfl
  unfold allNames
  rw [List.nodup_flatMap]
  constructor
  · intro entry _
    cases entry with
    | none => exact List.nodup_nil
    | some start => exact nodup_descendants hformed hrecorded start
  · refine Table.pairwise_values (hformed.nodup_entries scope) ?_
    intro name name' entry entry' hne hentry hentry'
    cases entry with
    | none => exact List.disjoint_nil_left _
    | some start =>
        cases entry' with
        | none => exact List.disjoint_nil_right _
        | some start' =>
            exact disjoint_descendants hrecorded hformed
              (hapart name name' start start' hne hentry hentry')
              (hapart name' name start' start (Ne.symm hne) hentry' hentry)

/-- The names of all scopes together are the names of the tree that have not gone wrong, each
listed once. -/
theorem perm_allNames :
    (tree.scopeIds.flatMap tree.allNames).Perm (tree.nameIds.filter fun id => !tree.isJunk id) := by
  have hscopes : tree.scopeIds.Nodup :=
    List.nodup_range.map fun first second heq => by simpa using heq
  have hnames : tree.nameIds.Nodup :=
    List.nodup_range.map fun first second heq => by simpa using heq
  rw [List.perm_ext_iff_of_nodup ?_ (hnames.filter _)]
  · intro id
    rw [List.mem_flatMap, List.mem_filter, Bool.not_eq_true']
    constructor
    · rintro ⟨scope, -, hid⟩
      obtain ⟨hlive, -⟩ := ((mem_allNames hformed).mp hid).home hformed
      exact ⟨List.mem_map.mpr ⟨id.index, List.mem_range.mpr (lt_size_of_not_junk hlive), rfl⟩, hlive⟩
    · rintro ⟨-, hlive⟩
      obtain ⟨scope, howned⟩ := exists_owned hformed hrecorded hlive
      refine ⟨scope, List.mem_map.mpr ⟨scope.index, List.mem_range.mpr ?_, rfl⟩,
        (mem_allNames hformed).mpr howned⟩
      exact howned.lt_size
  · rw [List.nodup_flatMap]
    refine ⟨fun scope _ => nodup_allNames hformed hrecorded scope, ?_⟩
    refine hscopes.imp fun hne => ?_
    intro id hid hid'
    have hhome := ((mem_allNames hformed).mp hid).home hformed
    have hhome' := ((mem_allNames hformed).mp hid').home hformed
    exact hne (Option.some.inj (hhome.2.symm.trans hhome'.2))

end Recorded

end ScopeTree

end FrameLang
