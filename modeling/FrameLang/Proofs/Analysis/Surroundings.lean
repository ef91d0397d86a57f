import FrameLang.Proofs.Analysis.Survey
import FrameLang.Proofs.Scope.Extension

/-!
# What stands around a node

Which names a node can see is written in the unit itself: in the constructs that stand
around the node (`Layer`), each of which declares some names or hides some.  This file
lists every node with the layers around it (`Expr.surrounded`) and shows that the walk over
a unit opens one scope for each layer, which says what the layer says and nothing else
(`Survey.Stands`, `Survey.surrounded_ofUnit`).

On the way, the walk records every name once (`ScopeTree.Recorded`).

## Strategy

A scope is told what its construct says right after it has been opened, and nothing is
told to it again before the walk is over.  So a scope that has just been opened is followed
until it has been told everything (`Survey.Opened`), and from then on the walk leaves it as
it is (`Survey.Undisturbed`).
-/

namespace FrameLang

/-! ## Layers -/

/-- What a construct says about a name. -/
inductive Saying where
  /-- The name means what a node evaluates to. -/
  | value (node : NodeId)
  /-- The name means what an amending override replaces. -/
  | replaced
  /-- The name is hidden. -/
  | hidden
  deriving DecidableEq, Repr

/-- A construct that stands around a node, as far as names are concerned. -/
structure Layer where
  /-- What it says; the first word about a name is the one that counts. -/
  sayings : List (String × Saying)
  /-- Whether the names that it inherits are delegated, not masked. -/
  delegates : Bool
  deriving DecidableEq, Repr

namespace Layer

/-- What a layer says about a name. -/
def says? (layer : Layer) (name : String) : Option Saying := layer.sayings.lookup name

/-- A construct that binds attributes. -/
def ofAttributes (attributes : List (Attribute Expr)) (delegates : Bool) : Layer :=
  ⟨attributes.map fun item => (item.name, .value item.value.id), delegates⟩

/-- An instantiation that binds overrides. -/
def ofOverrides (overrides : List (Override Expr)) : Layer :=
  ⟨overrides.map fun item => (item.name, .value item.value.id), false⟩

/-- An override that gives a name to what it replaces. -/
def ofReplaced (name : String) : Layer := ⟨[(name, .replaced)], false⟩

/-- A construct that hides names. -/
def ofHidden (names : List String) : Layer := ⟨names.map fun name => (name, .hidden), true⟩

/-- A layer with another word at the end. -/
def saying (layer : Layer) (name : String) (saying : Saying) : Layer :=
  { layer with sayings := layer.sayings ++ [(name, saying)] }

theorem says?_saying (layer : Layer) (name : String) (saying : Saying) (other : String) :
    (layer.saying name saying).says? other =
      (layer.says? other).or (if name = other then some saying else none) := by
  unfold says? Layer.saying
  rw [List.lookup_append, List.lookup_cons, List.lookup_nil]
  by_cases h : name = other
  · subst h
    simp
  · have hne : (other == name) = false := beq_false_of_ne fun heq => h heq.symm
    simp [h, hne]

/-- What the innermost layer that says anything about a name says about it. -/
def nearest? (layers : List Layer) (name : String) : Option Saying :=
  layers.findSome? fun layer => layer.says? name

end Layer

namespace Expr

mutual

/-- Every node of an expression with the layers around it, innermost first. -/
def surrounded (layers : List Layer) : Expr → List (Expr × List Layer)
  | expr@(literal ..) | expr@(lookup ..) => [(expr, layers)]
  | expr@(coalesce _ primary fallback) =>
      (expr, layers) :: (primary.surrounded layers ++ fallback.surrounded layers)
  | expr@(conditional _ condition consequent alternative) =>
      (expr, layers) :: (condition.surrounded layers ++ consequent.surrounded layers ++
        alternative.surrounded layers)
  | expr@(arithmetic _ _ left right) =>
      (expr, layers) :: (left.surrounded layers ++ right.surrounded layers)
  | expr@(enforce _ value _) => (expr, layers) :: value.surrounded layers
  | expr@(frame _ attributes) | expr@(template _ attributes) =>
      (expr, layers) :: surroundedOfAttributes (.ofAttributes attributes false :: layers) attributes
  | expr@(instantiate _ base overrides) =>
      (expr, layers) :: (base.surrounded layers ++
        surroundedOfOverrides (.ofOverrides overrides :: layers) overrides)
  | expr@(letIn _ bindings body) =>
      (expr, layers) :: (surroundedOfAttributes (.ofAttributes bindings true :: layers) bindings ++
        body.surrounded (.ofAttributes bindings true :: layers))
  | expr@(hide _ names body) => (expr, layers) :: body.surrounded (.ofHidden names :: layers)

/-- Every node of the values of attributes. -/
def surroundedOfAttributes (layers : List Layer) :
    List (Attribute Expr) → List (Expr × List Layer)
  | [] => []
  | ⟨_, _, value⟩ :: rest => value.surrounded layers ++ surroundedOfAttributes layers rest

/-- Every node of the values of overrides. -/
def surroundedOfOverrides (layers : List Layer) :
    List (Override Expr) → List (Expr × List Layer)
  | [] => []
  | ⟨_, _, none, value⟩ :: rest =>
      value.surrounded layers ++ surroundedOfOverrides layers rest
  | ⟨_, _, some replaced, value⟩ :: rest =>
      value.surrounded (.ofReplaced replaced :: layers) ++ surroundedOfOverrides layers rest

end

mutual

theorem map_fst_surrounded (layers : List Layer) (expr : Expr) :
    (expr.surrounded layers).map Prod.fst = expr.nodes := by
  match expr with
  | .literal .. | .lookup .. => rfl
  | .coalesce _ primary fallback | .arithmetic _ _ primary fallback =>
      simp only [surrounded, nodes, List.map_cons, List.map_append, map_fst_surrounded]
  | .conditional _ condition consequent alternative =>
      simp only [surrounded, nodes, List.map_cons, List.map_append, map_fst_surrounded]
  | .enforce _ value _ | .hide _ _ value =>
      simp only [surrounded, nodes, List.map_cons, map_fst_surrounded]
  | .frame _ attributes | .template _ attributes =>
      simp only [surrounded, nodes, List.map_cons, map_fst_surroundedOfAttributes]
  | .instantiate _ base overrides =>
      simp only [surrounded, nodes, List.map_cons, List.map_append, map_fst_surrounded,
        map_fst_surroundedOfOverrides]
  | .letIn _ bindings body =>
      simp only [surrounded, nodes, List.map_cons, List.map_append, map_fst_surrounded,
        map_fst_surroundedOfAttributes]

theorem map_fst_surroundedOfAttributes (layers : List Layer) (attributes : List (Attribute Expr)) :
    (surroundedOfAttributes layers attributes).map Prod.fst = nodesOfAttributes attributes := by
  match attributes with
  | [] => rfl
  | ⟨_, _, value⟩ :: rest =>
      simp only [surroundedOfAttributes, nodesOfAttributes, List.map_append, map_fst_surrounded,
        map_fst_surroundedOfAttributes]

theorem map_fst_surroundedOfOverrides (layers : List Layer) (overrides : List (Override Expr)) :
    (surroundedOfOverrides layers overrides).map Prod.fst = nodesOfOverrides overrides := by
  match overrides with
  | [] => rfl
  | ⟨_, _, none, value⟩ :: rest | ⟨_, _, some _, value⟩ :: rest =>
      simp only [surroundedOfOverrides, nodesOfOverrides, List.map_append, map_fst_surrounded,
        map_fst_surroundedOfOverrides]

end

end Expr

/-! ## What scopes say -/

namespace ScopeTree

/-- What a scope says about a name is what a layer says about it. -/
def Repeats (tree : ScopeTree) (scope : ScopeId) (name : String) : Option Saying → Prop
  | none => tree.meaning? scope name = none
  | some (.value node) => ∃ id kinds, tree.meaning? scope name = some (some id) ∧
      (tree.name id).origin = .bound node kinds
  | some .replaced => ∃ id kinds, tree.meaning? scope name = some (some id) ∧
      (tree.name id).origin = .replaced kinds
  | some .hidden => tree.meaning? scope name = some none

/-- A tree has more scopes and names than another one, and is the same otherwise. -/
structure Undisturbed (before after : ScopeTree) : Prop where
  size_scopes : before.scopes.size ≤ after.scopes.size
  size_names : before.names.size ≤ after.names.size
  enclosing : ∀ scope, scope.index < before.scopes.size →
    (after.scope scope).enclosing = (before.scope scope).enclosing
  delegates : ∀ scope, scope.index < before.scopes.size →
    (after.scope scope).delegates = (before.scope scope).delegates
  meaning? : ∀ scope name, scope.index < before.scopes.size →
    after.meaning? scope name = before.meaning? scope name
  name : ∀ id, id.index < before.names.size → after.name id = before.name id

namespace Undisturbed

variable {before after third : ScopeTree}

theorem refl (tree : ScopeTree) : tree.Undisturbed tree :=
  ⟨Nat.le_refl _, Nat.le_refl _, fun _ _ => rfl, fun _ _ => rfl, fun _ _ _ => rfl, fun _ _ => rfl⟩

theorem trans (h : before.Undisturbed after) (h' : after.Undisturbed third) :
    before.Undisturbed third where
  size_scopes := Nat.le_trans h.size_scopes h'.size_scopes
  size_names := Nat.le_trans h.size_names h'.size_names
  enclosing scope hscope := (h'.enclosing scope (Nat.lt_of_lt_of_le hscope h.size_scopes)).trans
    (h.enclosing scope hscope)
  delegates scope hscope := (h'.delegates scope (Nat.lt_of_lt_of_le hscope h.size_scopes)).trans
    (h.delegates scope hscope)
  meaning? scope name hscope :=
    (h'.meaning? scope name (Nat.lt_of_lt_of_le hscope h.size_scopes)).trans
      (h.meaning? scope name hscope)
  name id hid := (h'.name id (Nat.lt_of_lt_of_le hid h.size_names)).trans (h.name id hid)

end Undisturbed

theorem lt_size_of_origin {tree : ScopeTree} {id : NameId} (h : (tree.name id).origin ≠ .junk) :
    id.index < tree.names.size :=
  lt_size_of_not_junk (NameRecord.isJunk_eq_false.mpr h)

theorem Repeats.congr {before after : ScopeTree} {scope : ScopeId} {name : String}
    (hmeaning : after.meaning? scope name = before.meaning? scope name)
    (hname : ∀ id, id.index < before.names.size → after.name id = before.name id)
    {saying : Option Saying} (h : before.Repeats scope name saying) :
    after.Repeats scope name saying := by
  match saying with
  | none => exact hmeaning.trans h
  | some .hidden => exact hmeaning.trans h
  | some (.value node) =>
      obtain ⟨id, kinds, hid, horigin⟩ := h
      have hsize := lt_size_of_origin (by rw [horigin]; simp)
      exact ⟨id, kinds, hmeaning.trans hid, (hname id hsize).symm ▸ horigin⟩
  | some .replaced =>
      obtain ⟨id, kinds, hid, horigin⟩ := h
      have hsize := lt_size_of_origin (by rw [horigin]; simp)
      exact ⟨id, kinds, hmeaning.trans hid, (hname id hsize).symm ▸ horigin⟩

theorem Repeats.undisturbed {before after : ScopeTree} (h : before.Undisturbed after)
    {scope : ScopeId} (hscope : scope.index < before.scopes.size) {name : String}
    {saying : Option Saying} (hrepeats : before.Repeats scope name saying) :
    after.Repeats scope name saying :=
  hrepeats.congr (h.meaning? scope name hscope) h.name

/-- A scope says nothing about a name exactly when the layer that it repeats does not. -/
theorem Repeats.meaning?_eq_none_iff {tree : ScopeTree} {scope : ScopeId} {name : String}
    {saying : Option Saying} (h : tree.Repeats scope name saying) :
    tree.meaning? scope name = none ↔ saying = none := by
  match saying with
  | none => exact iff_of_true h rfl
  | some .hidden => exact iff_of_false (by rw [show tree.meaning? scope name = some none from h]; simp) (by simp)
  | some (.value node) | some .replaced =>
      obtain ⟨id, kinds, hid, -⟩ := h
      exact iff_of_false (by rw [hid]; simp) (by simp)

/-- A scope and the scopes around it stand for layers. -/
def Stands (tree : ScopeTree) : List Layer → ScopeId → Prop
  | [], scope => scope.index < tree.scopes.size ∧ (tree.scope scope).enclosing = [] ∧
      ∀ name, tree.meaning? scope name = none
  | layer :: layers, scope => (∀ name, tree.Repeats scope name (layer.says? name)) ∧
      (tree.scope scope).delegates = layer.delegates ∧
        ∃ outer rest, (tree.scope scope).enclosing = outer :: rest ∧ tree.Stands layers outer

theorem Stands.lt_size {tree : ScopeTree} {layers : List Layer} {scope : ScopeId}
    (h : tree.Stands layers scope) : scope.index < tree.scopes.size := by
  cases layers with
  | nil => exact h.1
  | cons layer layers =>
      obtain ⟨-, -, outer, rest, henclosing, -⟩ := h
      exact lt_size_of_enclosing henclosing

theorem Stands.undisturbed {before after : ScopeTree} (h : before.Undisturbed after)
    {layers : List Layer} {scope : ScopeId} (hstands : before.Stands layers scope) :
    after.Stands layers scope := by
  induction layers generalizing scope with
  | nil =>
      obtain ⟨hscope, henclosing, hmeaning⟩ := hstands
      exact ⟨Nat.lt_of_lt_of_le hscope h.size_scopes, (h.enclosing scope hscope).trans henclosing,
        fun name => (h.meaning? scope name hscope).trans (hmeaning name)⟩
  | cons layer layers ih =>
      have hscope := hstands.lt_size
      obtain ⟨hrepeats, hdelegates, outer, rest, henclosing, houter⟩ := hstands
      exact ⟨fun name => (hrepeats name).undisturbed h hscope,
        (h.delegates scope hscope).trans hdelegates, outer, rest,
        (h.enclosing scope hscope).trans henclosing, ih houter⟩

end ScopeTree

namespace Survey

open ScopeM

/-! ## A scope that is being told what its construct says -/

/-- A scope has just been opened and told some things. -/
structure Opened (before : Session Layout) (outer : ScopeId) (layer : Layer)
    (after : Session Layout) : Prop where
  undisturbed : before.tree.Undisturbed after.tree
  recorded : before.tree.Recorded → after.tree.Recorded
  nodes : after.defs.nodes = before.defs.nodes
  size : after.tree.scopes.size = before.tree.scopes.size + 1
  enclosing : (after.tree.scope before.tree.nextScope).enclosing = before.tree.chain outer
  delegates : (after.tree.scope before.tree.nextScope).delegates = layer.delegates
  repeats : ∀ name, after.tree.Repeats before.tree.nextScope name (layer.says? name)

section Opened

variable {before session : Session Layout} {outer : ScopeId} {layer : Layer}

theorem Opened.lt_size (h : Opened before outer layer session) :
    before.tree.nextScope.index < session.tree.scopes.size := by
  rw [h.size]
  exact Nat.lt_succ_self _

theorem opened_openInside (before : Session Layout) {outer : ScopeId}
    (houter : outer.index < before.tree.scopes.size) (span : Span) (delegates : Bool) :
    Opened before outer ⟨[], delegates⟩
      (before.withTree (before.tree.openInside outer span delegates)) := by
  have hscope := ScopeTree.scope_openInside houter span delegates
  have hne : ∀ scope : ScopeId, scope.index < before.tree.scopes.size →
      scope ≠ before.tree.nextScope := by
    rintro scope hlt rfl
    exact Nat.lt_irrefl _ hlt
  have hentries : ∀ scope name, (before.tree.openInside outer span delegates).meaning? scope name =
      before.tree.meaning? scope name := by
    intro scope name
    unfold ScopeTree.meaning?
    rw [hscope]
    split
    · next heq =>
      have hdefault : before.tree.scope before.tree.nextScope = default :=
        ScopeTree.scope_of_size_le (Nat.le_refl _)
      rw [heq, hdefault]
      rfl
    · split
      · next heq => rw [heq]
      · rfl
  -- the scope outside only notes that it has been enclosed
  have hundisturbed : before.tree.Undisturbed (before.tree.openInside outer span delegates) := {
    size_scopes := by
      rw [ScopeTree.size_scopes_openInside]
      exact Nat.le_succ _
    size_names := Nat.le_refl _
    enclosing := fun scope hlt => by
      rw [hscope, if_neg (hne scope hlt)]
      split
      · next heq => rw [heq]
      · rfl
    delegates := fun scope hlt => by
      rw [hscope, if_neg (hne scope hlt)]
      split
      · next heq => rw [heq]
      · rfl
    meaning? := fun scope name _ => hentries scope name
    name := fun _ _ => rfl }
  have hat : ∀ place, (before.tree.openInside outer span delegates).at? place =
      before.tree.at? place := by
    intro place
    cases place with
    | entry scope name => exact hentries scope name
    | child id component => rfl
  exact {
    undisturbed := hundisturbed
    recorded := fun h => h.congr rfl hat rfl fun _ => rfl
    nodes := rfl
    size := ScopeTree.size_scopes_openInside ..
    enclosing := by
      rw [Session.tree_withTree, hscope, if_pos rfl]
      rfl
    delegates := by
      rw [Session.tree_withTree, hscope, if_pos rfl]
      rfl
    repeats := fun name => by
      show (before.tree.openInside outer span delegates).meaning? before.tree.nextScope name = none
      have hdefault : before.tree.scope before.tree.nextScope = default :=
        ScopeTree.scope_of_size_le (Nat.le_refl _)
      rw [hentries, ScopeTree.meaning?, hdefault]
      rfl }

/-- What is told to the scope that has just been opened is told to no other scope. -/
theorem Opened.tell (h : Opened before outer layer session) {tree : ScopeTree} {name : String}
    {said : Saying}
    (hscope : ∀ scope, scope ≠ before.tree.nextScope → tree.scope scope = session.tree.scope scope)
    (hsize : tree.scopes.size = session.tree.scopes.size)
    (hsame : (tree.scope before.tree.nextScope).enclosing =
        (session.tree.scope before.tree.nextScope).enclosing ∧
      (tree.scope before.tree.nextScope).delegates =
        (session.tree.scope before.tree.nextScope).delegates)
    (hnames : session.tree.names.size ≤ tree.names.size)
    (hname : ∀ id, id.index < session.tree.names.size → tree.name id = session.tree.name id)
    (hmeaning : ∀ other, name ≠ other → tree.meaning? before.tree.nextScope other =
      session.tree.meaning? before.tree.nextScope other)
    (hrepeats : tree.Repeats before.tree.nextScope name
      ((layer.says? name).or (some said)))
    (hrecorded : session.tree.Recorded → tree.Recorded) :
    Opened before outer (layer.saying name said) (session.withTree tree) := by
  have hne : ∀ scope : ScopeId, scope.index < before.tree.scopes.size →
      scope ≠ before.tree.nextScope := by
    rintro scope hlt rfl
    exact Nat.lt_irrefl _ hlt
  have hbefore := h.undisturbed
  have hundisturbed : before.tree.Undisturbed tree := {
    size_scopes := Nat.le_trans hbefore.size_scopes (Nat.le_of_eq hsize.symm)
    size_names := Nat.le_trans hbefore.size_names hnames
    enclosing := fun scope hlt => by
      rw [hscope scope (hne scope hlt)]
      exact hbefore.enclosing scope hlt
    delegates := fun scope hlt => by
      rw [hscope scope (hne scope hlt)]
      exact hbefore.delegates scope hlt
    meaning? := fun scope other hlt => by
      rw [ScopeTree.meaning?, hscope scope (hne scope hlt)]
      exact hbefore.meaning? scope other hlt
    name := fun id hlt => (hname id (Nat.lt_of_lt_of_le hlt hbefore.size_names)).trans
      (hbefore.name id hlt) }
  refine ⟨hundisturbed, fun hbefore => hrecorded (h.recorded hbefore), h.nodes,
    hsize.trans h.size, hsame.1.trans h.enclosing, hsame.2.trans h.delegates, fun other => ?_⟩
  rw [Layer.says?_saying]
  by_cases heq : name = other
  · rw [if_pos heq]
    exact heq ▸ hrepeats
  · rw [if_neg heq, Option.or_none]
    exact (h.repeats other).congr (hmeaning other heq) hname

theorem scope_setEntry_of_ne {tree : ScopeTree} {scope other : ScopeId} (hne : other ≠ scope)
    (name : String) (entry : Option NameId) :
    (tree.setEntry scope name entry).scope other = tree.scope other := by
  rw [ScopeTree.setEntry, ScopeTree.scope_recording,
    ScopeTree.scope_modifyScope_of_ne _ (Ne.symm hne)]

theorem scope_setEntry_self {tree : ScopeTree} {scope : ScopeId}
    (hscope : scope.index < tree.scopes.size) (name : String) (entry : Option NameId) :
    ((tree.setEntry scope name entry).scope scope).enclosing = (tree.scope scope).enclosing ∧
      ((tree.setEntry scope name entry).scope scope).delegates = (tree.scope scope).delegates := by
  rw [ScopeTree.setEntry, ScopeTree.scope_recording, ScopeTree.scope_modifyScope_self hscope]
  exact ⟨rfl, rfl⟩

theorem size_scopes_setEntry (tree : ScopeTree) (scope : ScopeId) (name : String)
    (entry : Option NameId) : (tree.setEntry scope name entry).scopes.size = tree.scopes.size :=
  ScopeTree.size_scopes_modifyScope ..

/-- The scope gives a meaning to a name that it has said nothing about. -/
theorem Opened.define (h : Opened before outer layer session) {name : String} {origin : Origin}
    {said : Saying} (hnone : layer.says? name = none)
    (hrepeats : ∀ (tree : ScopeTree) (scope : ScopeId) (id : NameId),
      tree.meaning? scope name = some (some id) → (tree.name id).origin = origin →
        tree.Repeats scope name (some said)) :
    Opened before outer (layer.saying name said)
      (session.withTree (session.tree.define before.tree.nextScope name origin)) := by
  have hscope := h.lt_size
  have hmeaning := ScopeTree.meaning?_define hscope name origin before.tree.nextScope
  have hnew : session.tree.meaning? before.tree.nextScope name = none :=
    (h.repeats name).meaning?_eq_none_iff.mpr hnone
  refine h.tell (fun scope hne => scope_setEntry_of_ne hne _ _) (size_scopes_setEntry ..)
    (scope_setEntry_self hscope _ _) ?_ (fun id hid => ScopeTree.name_addName_of_lt _ _ hid)
    (fun other hne => ?_) ?_ fun hrecorded => hrecorded.define origin hscope hnew
  · exact (ScopeTree.grows_addName _ _).size_names
  · rw [hmeaning, if_neg fun heq => hne heq.2]
  · rw [hnone]
    refine hrepeats _ _ session.tree.nextName ?_ ?_
    · rw [hmeaning, if_pos ⟨rfl, rfl⟩]
    · have hadded : (session.tree.define before.tree.nextScope name origin).name
          session.tree.nextName = .new name (some before.tree.nextScope) origin :=
        ScopeTree.name_addName_self ..
      rw [hadded]
      rfl

/-- The scope forbids a name; it says nothing else. -/
theorem Opened.forbid (h : Opened before outer layer session)
    (hhidden : ∀ name said, layer.says? name = some said → said = .hidden) (name : String) :
    Opened before outer (layer.saying name .hidden)
      (session.withTree (session.tree.forbid before.tree.nextScope name)) := by
  have hscope := h.lt_size
  have hmeaning := ScopeTree.meaning?_setEntry hscope name none before.tree.nextScope
  have hor : (layer.says? name).or (some .hidden) = some .hidden := by
    cases hsaid : layer.says? name with
    | none => rfl
    | some said => rw [hhidden name said hsaid]; rfl
  refine h.tell (fun scope hne => scope_setEntry_of_ne hne _ _) (size_scopes_setEntry ..)
    (scope_setEntry_self hscope _ _) (Nat.le_refl _) (fun _ _ => rfl) (fun other hne => ?_) ?_
    fun hrecorded => hrecorded.forbid hscope fun old hold => ?_
  · rw [ScopeTree.forbid, hmeaning, if_neg fun heq => hne heq.2]
  · rw [hor]
    exact (hmeaning name).trans (if_pos ⟨rfl, rfl⟩)
  · have hrepeats := h.repeats name
    cases hsaid : layer.says? name with
    | none =>
        rw [hsaid] at hrepeats
        cases hrepeats.symm.trans hold
    | some said =>
        rw [hsaid, hhidden name said hsaid] at hrepeats
        exact (Option.some.inj (hrepeats.symm.trans hold)).symm

theorem Opened.bind (h : Opened before outer layer session) (name : String) (value : NodeId)
    (span : Span) :
    Opened before outer (layer.saying name (.value value))
      ((Survey.bind before.tree.nextScope name value span).run session).2 := by
  unfold Survey.bind
  rw [run_bind, run_tree]
  unfold ScopeTree.bind?
  dsimp only
  cases hmeaning : session.tree.meaning? before.tree.nextScope name with
  | some entry =>
      -- the name is taken, so the new word about it does not count
      have hsaid : ∀ other, (layer.saying name (.value value)).says? other = layer.says? other := by
        intro other
        rw [Layer.says?_saying]
        cases hother : layer.says? other with
        | some said => rfl
        | none =>
            have hne : name ≠ other := by
              rintro rfl
              have hnone := (h.repeats name).meaning?_eq_none_iff.mpr hother
              cases hmeaning.symm.trans hnone
            rw [if_neg hne]
            rfl
      exact { h with repeats := fun other => by rw [hsaid]; exact h.repeats other }
  | none =>
      have hnone := (h.repeats name).meaning?_eq_none_iff.mp hmeaning
      have hvalue : ∀ (tree : ScopeTree) (scope : ScopeId) (id : NameId),
          tree.meaning? scope name = some (some id) → (tree.name id).origin = .bound value .any →
            tree.Repeats scope name (some (.value value)) :=
        fun _ _ id hid horigin => ⟨id, .any, hid, horigin⟩
      have hdefined := h.define hnone hvalue
      exact { hdefined with nodes := h.nodes }

/-- The scope is told one thing after the other. -/
theorem Opened.bindAll {α : Type} (name : α → String) (value : α → NodeId) (span : α → Span)
    (items : List α) (h : Opened before outer layer session) :
    Opened before outer
      { layer with sayings := layer.sayings ++ items.map fun item => (name item, .value (value item)) }
      ((items.forM fun item => Survey.bind before.tree.nextScope (name item) (value item)
        (span item)).run session).2 := by
  induction items generalizing layer session with
  | nil =>
      rw [List.map_nil, List.append_nil]
      exact h
  | cons item rest ih =>
      have hrest := ih (h.bind (name item) (value item) (span item))
      rw [run_forM_cons, List.map_cons]
      rw [Layer.saying, List.append_assoc] at hrest
      exact hrest

theorem Opened.forbidAll (names : List String) (h : Opened before outer layer session)
    (hhidden : ∀ name said, layer.says? name = some said → said = .hidden) :
    Opened before outer
      { layer with sayings := layer.sayings ++ names.map fun name => (name, .hidden) }
      ((names.forM fun name => (modifyTree fun tree => tree.forbid before.tree.nextScope name :
        ScopeM Layout Unit)).run session).2 := by
  induction names generalizing layer session with
  | nil =>
      rw [List.map_nil, List.append_nil]
      exact h
  | cons name rest ih =>
      have hstill : ∀ other said, (layer.saying name .hidden).says? other = some said →
          said = .hidden := by
        intro other said hsaid
        rw [Layer.says?_saying, Option.or_eq_some_iff] at hsaid
        rcases hsaid with hsaid | ⟨-, hsaid⟩
        · exact hhidden other said hsaid
        · split at hsaid
          · exact (Option.some.inj hsaid).symm
          · cases hsaid
      have hrest := ih (h.forbid hhidden name) hstill
      rw [run_forM_cons, List.map_cons]
      rw [Layer.saying, List.append_assoc] at hrest
      exact hrest

/-- A scope that has been told everything stands for its construct. -/
theorem Opened.stands (h : Opened before outer layer session) {layers : List Layer}
    (hstands : before.tree.Stands layers outer) :
    session.tree.Stands (layer :: layers) before.tree.nextScope :=
  ⟨h.repeats, h.delegates, outer, _, h.enclosing, hstands.undisturbed h.undisturbed⟩

end Opened

/-! ## The walk -/

/-- A part of the walk has placed some nodes in scopes that stand for the layers around them. -/
structure Surrounds (nodes : List (Expr × List Layer)) (before after : Session Layout) : Prop where
  undisturbed : before.tree.Undisturbed after.tree
  recorded : before.tree.Recorded → after.tree.Recorded
  found : ∀ id placement, after.defs.nodes.find? id = some placement →
    before.defs.nodes.find? id = some placement ∨
      ∃ layers, (placement.expr, layers) ∈ nodes ∧ placement.expr.id = id ∧
        after.tree.Stands layers placement.scope

namespace Surrounds

variable {nodes nodes' : List (Expr × List Layer)} {first second third : Session Layout}

theorem trans (h : Surrounds nodes first second) (h' : Surrounds nodes' second third) :
    Surrounds (nodes ++ nodes') first third where
  undisturbed := h.undisturbed.trans h'.undisturbed
  recorded hfirst := h'.recorded (h.recorded hfirst)
  found := by
    intro id placement hid
    rcases h'.found id placement hid with hid | ⟨layers, hmem, hid, hstands⟩
    · rcases h.found id placement hid with hid | ⟨layers, hmem, hid, hstands⟩
      · exact .inl hid
      · exact .inr ⟨layers, List.mem_append_left _ hmem, hid, hstands.undisturbed h'.undisturbed⟩
    · exact .inr ⟨layers, List.mem_append_right _ hmem, hid, hstands⟩

/-- Another part, in a scope that stands for the same layers as before. -/
theorem step (h : Surrounds nodes first second) {scope : ScopeId} {layers : List Layer}
    (hstands : first.tree.Stands layers scope)
    (hstep : second.tree.Stands layers scope → Surrounds nodes' second third) :
    Surrounds (nodes ++ nodes') first third :=
  h.trans (hstep (hstands.undisturbed h.undisturbed))

/-- A step that places no node. -/
theorem of_nodes (hundisturbed : first.tree.Undisturbed second.tree)
    (hrecorded : first.tree.Recorded → second.tree.Recorded)
    (hnodes : second.defs.nodes = first.defs.nodes) : Surrounds [] first second :=
  ⟨hundisturbed, hrecorded, fun _ _ hid => .inl (hnodes ▸ hid)⟩

theorem refl (session : Session Layout) : Surrounds [] session session :=
  of_nodes (.refl _) id rfl

/-- What is asked for does not matter. -/
theorem ask (h : Surrounds nodes first second) (scope : ScopeId) (asks : List Ask) :
    Surrounds nodes first ((Survey.ask scope asks).run second).2 :=
  ⟨h.undisturbed, h.recorded, h.found⟩

/-- Whatever is laid out inside a scope that has just been told everything. -/
theorem inside {outer : ScopeId} {layer : Layer} {layers : List Layer}
    (hopened : Opened first outer layer second) (hstands : first.tree.Stands layers outer)
    (hbody : second.tree.Stands (layer :: layers) first.tree.nextScope →
      Surrounds nodes second third) : Surrounds nodes first third := by
  have hinner := of_nodes hopened.undisturbed hopened.recorded hopened.nodes
  exact hinner.trans (hbody (hopened.stands hstands))

end Surrounds

theorem surrounds_node {session : Session Layout} {scope : ScopeId} {layers : List Layer}
    (h : session.tree.Stands layers scope) (expr : Expr) {layout : Layout}
    (hnodes : layout.nodes = session.defs.nodes.insert expr.id ⟨expr, scope⟩) :
    Surrounds [(expr, layers)] session (session.withDefs layout) := by
  refine ⟨.refl _, id, fun id placement hid => ?_⟩
  rw [Session.withDefs, hnodes, Table.find?_insert] at hid
  split at hid
  · next heq =>
    obtain rfl := Option.some.inj hid
    exact .inr ⟨layers, List.mem_singleton_self _, heq, h⟩
  · exact .inl hid

theorem surrounds_place {session : Session Layout} {scope : ScopeId} {layers : List Layer}
    (h : session.tree.Stands layers scope) (expr : Expr) :
    Surrounds [(expr, layers)] session (session.withDefs (session.defs.place expr scope)) :=
  surrounds_node h expr rfl

/-- A scope that a construct opens. -/
theorem opened_openFor (session : Session Layout) (mark : Mark) {outer : ScopeId}
    (houter : outer.index < session.tree.scopes.size) (delegates : Bool) :
    Opened session outer ⟨[], delegates⟩ ((openFor mark outer delegates).run session).2 :=
  { opened_openInside session houter mark.span delegates with nodes := rfl }

mutual

/-- The walk over an expression places its nodes in scopes that stand for what is around them. -/
theorem surrounds_walk {scope : ScopeId} {layers : List Layer} (expr : Expr)
    {session : Session Layout} (h : session.tree.Stands layers scope) :
    Surrounds (expr.surrounded layers) session ((walk scope expr).run session).2 := by
  match expr with
  | .literal mark value => exact surrounds_place h (.literal mark value)
  | .lookup mark path => exact surrounds_node h (.lookup mark path) rfl
  | .coalesce mark primary fallback =>
      have hplaced := surrounds_place h (.coalesce mark primary fallback)
      exact hplaced.step h fun h => (surrounds_walk primary h).step h (surrounds_walk fallback)
  | .conditional mark condition consequent alternative =>
      have hplaced := surrounds_place h (.conditional mark condition consequent alternative)
      exact hplaced.step h fun h =>
        (((surrounds_walk condition h).step h (surrounds_walk consequent)).step h
          (surrounds_walk alternative)).ask scope _
  | .arithmetic mark operator left right =>
      have hplaced := surrounds_place h (.arithmetic mark operator left right)
      exact hplaced.step h fun h =>
        ((surrounds_walk left h).step h (surrounds_walk right)).ask scope _
  | .enforce mark value kinds =>
      have hplaced := surrounds_place h (.enforce mark value kinds)
      exact hplaced.step h fun h => (surrounds_walk value h).ask scope _
  | .frame mark attributes =>
      have hplaced := surrounds_place h (.frame mark attributes)
      refine hplaced.step h fun h => .inside ?_ h fun h => (surrounds_walkAttributes attributes h).ask _ _
      exact (opened_openFor _ mark h.lt_size false).bindAll Attribute.name
        (fun item => item.value.id) Attribute.span attributes
  | .template mark attributes =>
      have hplaced := surrounds_place h (.template mark attributes)
      refine hplaced.step h fun h => .inside ?_ h fun h => (surrounds_walkAttributes attributes h).ask _ _
      exact (opened_openFor _ mark h.lt_size false).bindAll Attribute.name
        (fun item => item.value.id) Attribute.span attributes
  | .letIn mark bindings body =>
      have hplaced := surrounds_place h (.letIn mark bindings body)
      refine hplaced.step h fun h => .inside ?_ h fun h =>
        ((surrounds_walkAttributes bindings h).step h (surrounds_walk body)).ask _ _
      exact (opened_openFor _ mark h.lt_size true).bindAll Attribute.name
        (fun item => item.value.id) Attribute.span bindings
  | .hide mark names body =>
      have hplaced := surrounds_place h (.hide mark names body)
      refine hplaced.step h fun h => .inside ?_ h (surrounds_walk body)
      exact (opened_openFor _ mark h.lt_size true).forbidAll names fun _ _ hsaid => by cases hsaid
  | .instantiate mark base overrides =>
      have hplaced := surrounds_place h (.instantiate mark base overrides)
      refine hplaced.step h fun h => (surrounds_walk base h).step h fun h => .inside ?_ h fun h =>
        (surrounds_walkOverrides overrides h).ask _ _
      exact (opened_openFor _ mark h.lt_size false).bindAll Override.name
        (fun item => item.value.id) Override.span overrides

theorem surrounds_walkAttributes {scope : ScopeId} {layers : List Layer}
    (attributes : List (Attribute Expr)) {session : Session Layout}
    (h : session.tree.Stands layers scope) :
    Surrounds (Expr.surroundedOfAttributes layers attributes) session
      ((walkAttributes scope attributes).run session).2 := by
  match attributes with
  | [] => exact .refl session
  | ⟨_, _, value⟩ :: rest =>
      exact (surrounds_walk value h).step h (surrounds_walkAttributes rest)

theorem surrounds_walkOverrides {scope : ScopeId} {layers : List Layer}
    (overrides : List (Override Expr)) {session : Session Layout}
    (h : session.tree.Stands layers scope) :
    Surrounds (Expr.surroundedOfOverrides layers overrides) session
      ((walkOverrides scope overrides).run session).2 := by
  match overrides with
  | [] => exact .refl session
  | ⟨_, _, none, value⟩ :: rest =>
      exact (surrounds_walk value h).step h (surrounds_walkOverrides rest)
  | ⟨_, _, some replaced, value⟩ :: rest =>
      have hreplaced : ∀ (tree : ScopeTree) (scope : ScopeId) (id : NameId),
          tree.meaning? scope replaced = some (some id) → (tree.name id).origin = .replaced .any →
            tree.Repeats scope replaced (some .replaced) :=
        fun _ _ id hid horigin => ⟨id, .any, hid, horigin⟩
      have hopened := (opened_openInside session h.lt_size value.span false).define rfl hreplaced
      have hvalue := Surrounds.inside hopened h (surrounds_walk value)
      exact hvalue.step h (surrounds_walkOverrides rest)

end

/-! ## Whole units -/

theorem stands_rooted (unit : Expr) (file : String) (topLevel : Bool) :
    (rooted unit file topLevel).tree.Stands [] root := by
  have hscope : (rooted unit file topLevel).tree.scope root = .outermost unit.span topLevel :=
    (ScopeTree.scope_openRoot ..).trans (if_pos rfl)
  refine ⟨Nat.one_pos, ?_, fun name => ?_⟩
  · rw [hscope]
    rfl
  · rw [ScopeTree.meaning?, hscope]
    rfl

theorem recorded_rooted (unit : Expr) (file : String) (topLevel : Bool) :
    (rooted unit file topLevel).tree.Recorded := by
  have hentry : ∀ scope name, (rooted unit file topLevel).tree.meaning? scope name = none := by
    intro scope name
    have hscope := ScopeTree.scope_openRoot ∅ unit.span topLevel scope
    unfold rooted ScopeTree.meaning?
    dsimp only
    rw [hscope]
    split
    · rfl
    · rw [ScopeTree.scope_of_size_le (Nat.zero_le _)]
      rfl
  have hat : ∀ place, (rooted unit file topLevel).tree.at? place = none := by
    intro place
    cases place with
    | entry scope name => exact hentry scope name
    | child id component => rfl
  have hlive : ∀ id, (rooted unit file topLevel).tree.isJunk id = true := by
    intro id
    rw [ScopeTree.isJunk, ScopeTree.name_of_size_le (Nat.zero_le _)]
    rfl
  refine ⟨fun place => (hat place).symm ▸ rfl, .nil, ?_, ?_, ?_⟩
  · exact fun place id hplace => by cases (hat place).symm.trans hplace
  · exact fun place _ id hplace => by cases (hat place).symm.trans hplace
  · exact fun id hid => by cases (hlive id).symm.trans hid

variable (unit : Expr) (file : String) (topLevel : Bool)

theorem surrounds_ofUnit :
    Surrounds (unit.surrounded []) (rooted unit file topLevel) (ofUnit unit file topLevel) :=
  (surrounds_walk unit (stands_rooted unit file topLevel)).ask root [.node unit.id .any]

theorem recorded_ofUnit : (ofUnit unit file topLevel).tree.Recorded :=
  (surrounds_ofUnit unit file topLevel).recorded (recorded_rooted unit file topLevel)

variable {unit file topLevel}

/-- Every node of a unit is evaluated in a scope that stands for the layers around it. -/
theorem surrounded_ofUnit (hdistinct : unit.Distinct) {node : Expr} {layers : List Layer}
    (hnode : (node, layers) ∈ unit.surrounded []) :
    ∃ scope, (ofUnit unit file topLevel).defs.nodes.find? node.id = some ⟨node, scope⟩ ∧
      (ofUnit unit file topLevel).tree.Stands layers scope := by
  have hfst := Expr.map_fst_surrounded [] unit
  have hmem : node ∈ unit.nodes := hfst ▸ List.mem_map.mpr ⟨_, hnode, rfl⟩
  obtain ⟨scope, hplaced⟩ := @placed_ofUnit unit file topLevel hdistinct node hmem
  refine ⟨scope, hplaced, ?_⟩
  rcases (surrounds_ofUnit unit file topLevel).found node.id _ hplaced with
    hnone | ⟨others, hother, -, hstands⟩
  · cases hnone
  · -- no node occurs twice, so no node occurs with other layers around it
    have hdistinct' : ((unit.surrounded []).map fun pair => pair.1.id).Nodup := by
      have hids : (unit.surrounded []).map (fun pair => pair.1.id) = unit.nodes.map Expr.id := by
        rw [← hfst, List.map_map]
        rfl
      rw [hids]
      exact hdistinct
    have hsame := List.inj_on_of_nodup_map hdistinct' hother hnode rfl
    obtain ⟨-, rfl⟩ := Prod.mk.inj hsame
    exact hstands

end Survey

end FrameLang
