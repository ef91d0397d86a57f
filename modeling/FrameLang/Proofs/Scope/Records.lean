import FrameLang.Scope.Lookup
import Mathlib.Tactic.Common

/-!
# Records of a scope tree

What each operation does to the scopes and the names of a tree, one record at a
time, and what each step of a session does to the session.  Nothing after this
file looks at the arrays of a tree.
-/

namespace FrameLang

/-- Delegation and parenthood lead to earlier names only, so that what is told of a name is
told by induction on the names before it. -/
@[elab_as_elim]
theorem NameId.strongInduction {motive : NameId → Prop}
    (step : ∀ id, (∀ source : NameId, source.index < id.index → motive source) → motive id)
    (id : NameId) : motive id :=
  (measure NameId.index).wf.induction id step

namespace ScopeTree

variable (tree : ScopeTree)

/-! ## Names -/

theorem name_of_size_le {tree : ScopeTree} {id : NameId} (h : tree.names.size ≤ id.index) :
    tree.name id = .junk := by
  rw [name, Array.getElem?_eq_none h]
  rfl

theorem name_modifyName (id other : NameId) (change : NameRecord → NameRecord) :
    (tree.modifyName id change).name other =
      if id = other ∧ id.index < tree.names.size then change (tree.name id)
      else tree.name other := by
  obtain ⟨index⟩ := id
  obtain ⟨other⟩ := other
  simp only [name, modifyName, Array.getElem?_modify, NameId.mk.injEq]
  by_cases heq : index = other
  · subst heq
    by_cases hlt : index < tree.names.size <;> simp [hlt]
  · simp [heq]

theorem name_modifyName_of_ne {id other : NameId} (hne : id ≠ other)
    (change : NameRecord → NameRecord) :
    (tree.modifyName id change).name other = tree.name other := by
  rw [name_modifyName, if_neg fun h => hne h.1]

/-- A change that leaves the junk record alone may be thought of as applied to any name. -/
theorem name_modifyName_self (id : NameId) {change : NameRecord → NameRecord}
    (hjunk : change .junk = .junk) :
    (tree.modifyName id change).name id = change (tree.name id) := by
  rw [name_modifyName]
  split
  · rfl
  · next h =>
    have hlt : ¬ id.index < tree.names.size := fun hlt => h ⟨rfl, hlt⟩
    rw [name_of_size_le (Nat.le_of_not_lt hlt), hjunk]

@[simp] theorem scope_modifyName (id : NameId) (change : NameRecord → NameRecord)
    (scope : ScopeId) : (tree.modifyName id change).scope scope = tree.scope scope := rfl

@[simp] theorem scopes_modifyName (id : NameId) (change : NameRecord → NameRecord) :
    (tree.modifyName id change).scopes = tree.scopes := rfl

@[simp] theorem size_names_modifyName (id : NameId) (change : NameRecord → NameRecord) :
    (tree.modifyName id change).names.size = tree.names.size := by
  simp [modifyName]

theorem name_addName (record : NameRecord) (id : NameId) :
    (tree.addName record).name id =
      if id = tree.nextName then record else tree.name id := by
  obtain ⟨index⟩ := id
  simp only [name, addName, nextName, Array.getElem?_push, NameId.mk.injEq]
  split <;> rfl

theorem name_addName_of_lt (record : NameRecord) {id : NameId}
    (hid : id.index < tree.names.size) : (tree.addName record).name id = tree.name id := by
  rw [name_addName, if_neg]
  rintro rfl
  exact Nat.lt_irrefl _ hid

@[simp] theorem name_addName_self (record : NameRecord) :
    (tree.addName record).name tree.nextName = record := by
  rw [name_addName, if_pos rfl]

@[simp] theorem scope_addName (record : NameRecord) (scope : ScopeId) :
    (tree.addName record).scope scope = tree.scope scope := rfl

@[simp] theorem scopes_addName (record : NameRecord) :
    (tree.addName record).scopes = tree.scopes := rfl

@[simp] theorem size_names_addName (record : NameRecord) :
    (tree.addName record).names.size = tree.names.size + 1 := by
  simp [addName]

@[simp] theorem name_recording (place : Place) (entry : Option NameId) (id : NameId) :
    (tree.recording place entry).name id = tree.name id := rfl

@[simp] theorem scope_recording (place : Place) (entry : Option NameId) (scope : ScopeId) :
    (tree.recording place entry).scope scope = tree.scope scope := rfl

@[simp] theorem names_recording (place : Place) (entry : Option NameId) :
    (tree.recording place entry).names = tree.names := rfl

@[simp] theorem scopes_recording (place : Place) (entry : Option NameId) :
    (tree.recording place entry).scopes = tree.scopes := rfl

/-! ## Scopes -/

theorem scope_of_size_le {tree : ScopeTree} {id : ScopeId} (h : tree.scopes.size ≤ id.index) :
    tree.scope id = default := by
  rw [scope, Array.getElem?_eq_none h]
  rfl

theorem scope_modifyScope (id other : ScopeId) (change : Scope → Scope) :
    (tree.modifyScope id change).scope other =
      if id = other ∧ id.index < tree.scopes.size then change (tree.scope id)
      else tree.scope other := by
  obtain ⟨index⟩ := id
  obtain ⟨other⟩ := other
  simp only [scope, modifyScope, Array.getElem?_modify, ScopeId.mk.injEq]
  by_cases heq : index = other
  · subst heq
    by_cases hlt : index < tree.scopes.size <;> simp [hlt]
  · simp [heq]

theorem scope_modifyScope_of_ne {id other : ScopeId} (hne : id ≠ other)
    (change : Scope → Scope) :
    (tree.modifyScope id change).scope other = tree.scope other := by
  rw [scope_modifyScope, if_neg fun h => hne h.1]

theorem scope_modifyScope_self {tree : ScopeTree} {id : ScopeId}
    (hid : id.index < tree.scopes.size) (change : Scope → Scope) :
    (tree.modifyScope id change).scope id = change (tree.scope id) := by
  rw [scope_modifyScope, if_pos ⟨rfl, hid⟩]

@[simp] theorem name_modifyScope (id : ScopeId) (change : Scope → Scope) (name : NameId) :
    (tree.modifyScope id change).name name = tree.name name := rfl

@[simp] theorem names_modifyScope (id : ScopeId) (change : Scope → Scope) :
    (tree.modifyScope id change).names = tree.names := rfl

@[simp] theorem size_scopes_modifyScope (id : ScopeId) (change : Scope → Scope) :
    (tree.modifyScope id change).scopes.size = tree.scopes.size := by
  simp [modifyScope]

theorem meaning?_setEntry {tree : ScopeTree} {scope : ScopeId}
    (hscope : scope.index < tree.scopes.size) (name : String) (entry : Option NameId)
    (other : ScopeId) (here : String) :
    (tree.setEntry scope name entry).meaning? other here =
      if scope = other ∧ name = here then some entry else tree.meaning? other here := by
  unfold meaning? setEntry
  rw [scope_recording]
  by_cases heq : scope = other
  · subst heq
    rw [scope_modifyScope_self hscope, Table.find?_insert]
    by_cases hname : name = here <;> simp [hname]
  · rw [scope_modifyScope_of_ne _ heq, if_neg fun h => heq h.1]

theorem scope_openRoot (tree : ScopeTree) (span : Span) (topLevel : Bool) (id : ScopeId) :
    (tree.openRoot span topLevel).scope id =
      if id = tree.nextScope then .outermost span topLevel else tree.scope id := by
  obtain ⟨index⟩ := id
  simp only [scope, openRoot, nextScope, Array.getElem?_push, ScopeId.mk.injEq]
  split <;> rfl

theorem scope_openInside {tree : ScopeTree} {outer : ScopeId}
    (houter : outer.index < tree.scopes.size) (span : Span) (delegates : Bool) (id : ScopeId) :
    (tree.openInside outer span delegates).scope id =
      if id = tree.nextScope then (tree.scope outer).inside outer span delegates
      else if id = outer then
        { tree.scope outer with children := (tree.scope outer).children ++ [tree.nextScope] }
      else tree.scope id := by
  have hpush : ∀ other : ScopeId, ({ tree with
      scopes := tree.scopes.push ((tree.scope outer).inside outer span delegates) } :
        ScopeTree).scope other =
        if other = tree.nextScope then (tree.scope outer).inside outer span delegates
        else tree.scope other := by
    rintro ⟨index⟩
    simp only [scope, nextScope, Array.getElem?_push, ScopeId.mk.injEq]
    split <;> rfl
  have hne : outer ≠ tree.nextScope := by
    rintro rfl
    exact Nat.lt_irrefl _ houter
  unfold openInside
  rw [scope_modifyScope, hpush, hpush, if_neg hne]
  by_cases hid : id = outer
  · subst hid
    rw [if_pos ⟨rfl, by simpa using Nat.lt_succ_of_lt houter⟩, if_neg hne, if_pos rfl]
  · rw [if_neg fun heq => hid heq.1.symm, if_neg hid]

@[simp] theorem size_scopes_openInside (tree : ScopeTree) (outer : ScopeId) (span : Span)
    (delegates : Bool) :
    (tree.openInside outer span delegates).scopes.size = tree.scopes.size + 1 := by
  simp [openInside]

/-- Whatever a scope says after it has been told something is new or has been there before. -/
theorem meaning?_of_setEntry {tree : ScopeTree} {scope other : ScopeId} {name here : String}
    {entry meaning : Option NameId}
    (h : (tree.setEntry scope name entry).meaning? other here = some meaning) :
    (scope = other ∧ name = here ∧ entry = meaning) ∨ tree.meaning? other here = some meaning := by
  by_cases hscope : scope.index < tree.scopes.size
  · rw [meaning?_setEntry hscope] at h
    split at h
    · next heq => exact .inl ⟨heq.1, heq.2, Option.some.inj h⟩
    · exact .inr h
  · have hsame : (tree.setEntry scope name entry).scope other = tree.scope other := by
      rw [setEntry, scope_recording, scope_modifyScope, if_neg fun heq => hscope heq.2]
    rw [meaning?, hsame] at h
    exact .inr h

theorem child?_setChild {tree : ScopeTree} {id : NameId} (hid : id.index < tree.names.size)
    (component : String) (child other : NameId) (here : String) :
    (tree.setChild id component child).child? other here =
      if id = other ∧ component = here then some child else tree.child? other here := by
  unfold child? setChild
  rw [name_recording]
  by_cases heq : id = other
  · subst heq
    rw [name_modifyName, if_pos ⟨rfl, hid⟩, Table.find?_insert]
    by_cases hcomponent : component = here <;> simp [hcomponent]
  · rw [name_modifyName_of_ne _ heq, if_neg fun h => heq h.1]

end ScopeTree

/-! ## Steps of a session -/

namespace ScopeM

variable {σ α β : Type} (session : Session σ)

theorem run_bind (first : ScopeM σ α) (next : α → ScopeM σ β) :
    (first >>= next).run session = (next (first.run session).1).run (first.run session).2 := rfl

@[simp] theorem run_pure (value : α) : (pure value : ScopeM σ α).run session = (value, session) :=
  rfl

@[simp] theorem run_tree : (tree : ScopeM σ ScopeTree).run session = (session.tree, session) := rfl

@[simp] theorem run_defs : (defs : ScopeM σ σ).run session = (session.defs, session) := rfl

@[simp] theorem run_modifyTree (change : ScopeTree → ScopeTree) :
    (modifyTree change : ScopeM σ Unit).run session =
      ((), { session with tree := change session.tree }) := rfl

@[simp] theorem run_report (change : Reporter → Reporter) :
    (report change : ScopeM σ Unit).run session =
      ((), { session with reporter := change session.reporter }) := rfl

@[simp] theorem run_note (event : Event) :
    (note event : ScopeM σ Unit).run session =
      ((), { session with trace := event :: session.trace }) := rfl

@[simp] theorem run_modifyDefs (change : σ → σ) :
    (modifyDefs change : ScopeM σ Unit).run session =
      ((), { session with defs := change session.defs }) := rfl

@[simp] theorem run_forM_nil (step : α → ScopeM σ PUnit) :
    (([] : List α).forM step).run session = (⟨⟩, session) := rfl

theorem run_forM_cons (item : α) (items : List α) (step : α → ScopeM σ PUnit) :
    ((item :: items).forM step).run session =
      (items.forM step).run ((step item).run session).2 := rfl

theorem run_forM_append (items rest : List α) (step : α → ScopeM σ PUnit) :
    ((items ++ rest).forM step).run session =
      (rest.forM step).run ((items.forM step).run session).2 := by
  induction items generalizing session with
  | nil => rfl
  | cons item items ih => rw [List.cons_append, run_forM_cons, run_forM_cons, ih]

/-- What each of several steps keeps is kept by all of them, made one after the other. -/
theorem forM_preserves (kept : Session σ → Prop) {step : α → ScopeM σ PUnit} (items : List α)
    (hstep : ∀ item ∈ items, ∀ session, kept session → kept ((step item).run session).2)
    {session : Session σ} (h : kept session) : kept ((items.forM step).run session).2 := by
  induction items generalizing session with
  | nil => exact h
  | cons item items ih =>
      rw [run_forM_cons]
      exact ih (fun other hother => hstep other (List.mem_cons_of_mem _ hother))
        (hstep item List.mem_cons_self session h)

@[simp] theorem run_addName (record : NameRecord) :
    (addName record : ScopeM σ NameId).run session =
      (session.tree.nextName, { session with tree := session.tree.addName record }) := rfl

@[simp] theorem run_define (scope : ScopeId) (name : String) (origin : Origin) :
    (define scope name origin : ScopeM σ NameId).run session =
      (session.tree.nextName,
        { session with tree := session.tree.define scope name origin }) := rfl

@[simp] theorem run_junk : (junk : ScopeM σ NameId).run session =
    (session.tree.nextName, { session with tree := session.tree.addName .junk }) := rfl

end ScopeM

end FrameLang
