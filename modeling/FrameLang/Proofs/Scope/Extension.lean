import FrameLang.Proofs.Scope.Formed
import Mathlib.Logic.Relation

/-!
# How the tables of a tree are extended

Once the walk over a unit is over, a run can do three things to the tables of a
tree (`ScopeTree.Step`).  It leaves them as they are, it tells a scope what a name
means that the scope has said nothing about, or it records a longer name where
there was none.  A whole run is a sequence of such steps (`ScopeTree.Extends`), so
whatever one step keeps, the run keeps.

Two things are kept.  The history of a tree accounts for its tables, and no place
is ever given to another name (`ScopeTree.Recorded`).  And a chain of scopes goes
on forbidding the names that it forbids, and no others (`ScopeTree.Step.forbids_iff`).

## Strategy

A new entry is one that the scopes around its scope entitle it to (`Entitled`):
either none of them says anything, and the name is free, or the scope directly
outside has a name, and it is inherited.  So a new entry never comes between a
scope and something further out that is forbidden.
-/

namespace FrameLang

/-! ## Histories -/

namespace History

variable {history earlier later : History} {place : Place} {entry : Option NameId}

theorem at?_cons (history : History) (place other : Place) (entry : Option NameId) :
    at? ((place, entry) :: history) other =
      if place = other then some entry else history.at? other := by
  unfold at?
  rw [List.find?_cons]
  by_cases h : place = other <;> simp [h]

/-- What has been put into a place has never been replaced by anything else. -/
inductive Settled : History → Prop where
  | nil : Settled []
  | cons {history : History} {place : Place} {entry : Option NameId} (h : Settled history)
      (hnew : ∀ old, history.at? place = some old → old = entry) :
      Settled ((place, entry) :: history)

/-- What a place has held at some moment it holds ever after. -/
theorem Settled.at?_of_suffix (h : later.Settled) (hsuffix : earlier <:+ later)
    (hat : earlier.at? place = some entry) : later.at? place = some entry := by
  induction h with
  | nil =>
      obtain rfl := List.suffix_nil.mp hsuffix
      exact hat
  | @cons history other new h hnew ih =>
      rcases List.suffix_cons_iff.mp hsuffix with rfl | hsuffix
      · exact hat
      · have hold := ih hsuffix
        rw [at?_cons]
        split
        · next heq => rw [hnew entry (heq ▸ hold)]
        · exact hold

theorem Settled.of_suffix (h : later.Settled) (hsuffix : earlier <:+ later) : earlier.Settled := by
  induction h with
  | nil => exact List.suffix_nil.mp hsuffix ▸ .nil
  | cons h hnew ih =>
      rcases List.suffix_cons_iff.mp hsuffix with rfl | hsuffix
      · exact .cons h hnew
      · exact ih hsuffix

/-- A path that has led to a name leads to it ever after. -/
theorem Settled.find?_of_suffix (h : later.Settled) (hsuffix : earlier <:+ later) {scope : ScopeId}
    {path : List String} {id : NameId} (hfind : earlier.find? scope path = some id) :
    later.find? scope path = some id := by
  have hstep : ∀ place found, (earlier.at? place).join = some found →
      (later.at? place).join = some found := by
    intro place found hfound
    rw [Option.join_eq_some_iff] at hfound ⊢
    exact h.at?_of_suffix hsuffix hfound
  have hgoes : ∀ (rest : List String) (start : NameId),
      rest.foldlM (fun id component => (earlier.at? (.child id component)).join) start = some id →
        rest.foldlM (fun id component => (later.at? (.child id component)).join) start =
          some id := by
    intro rest
    induction rest with
    | nil => exact fun _ hrest => hrest
    | cons component rest ih =>
        intro start hrest
        rw [List.foldlM_cons] at hrest ⊢
        obtain ⟨next, hnext, hrest⟩ := Option.bind_eq_some_iff.mp hrest
        exact Option.bind_eq_some_iff.mpr ⟨next, hstep _ _ hnext, ih next hrest⟩
  match path with
  | [] => exact hfind
  | first :: rest =>
      obtain ⟨start, hstart, hrest⟩ := Option.bind_eq_some_iff.mp hfind
      exact Option.bind_eq_some_iff.mpr ⟨start, hstep _ _ hstart, hgoes rest start hrest⟩

end History

namespace ScopeTree

variable {tree before after third : ScopeTree}

/-! ## Places -/

/-- What a tree holds in a place. -/
def at? (tree : ScopeTree) : Place → Option (Option NameId)
  | .entry scope name => tree.meaning? scope name
  | .child id component => (tree.child? id component).map some

theorem child?_define (tree : ScopeTree) (scope : ScopeId) (name : String) (origin : Origin)
    (id : NameId) (component : String) :
    (tree.define scope name origin).child? id component = tree.child? id component :=
  child?_addName tree rfl id component

theorem meaning?_define {scope : ScopeId} (hscope : scope.index < tree.scopes.size) (name : String)
    (origin : Origin) (other : ScopeId) (here : String) :
    (tree.define scope name origin).meaning? other here =
      if scope = other ∧ name = here then some (some tree.nextName)
      else tree.meaning? other here :=
  meaning?_setEntry hscope name _ other here

theorem at?_define {scope : ScopeId} (hscope : scope.index < tree.scopes.size) (name : String)
    (origin : Origin) (place : Place) :
    (tree.define scope name origin).at? place =
      if .entry scope name = place then some (some tree.nextName) else tree.at? place := by
  cases place with
  | entry other here =>
      simp only [at?, meaning?_define hscope, Place.entry.injEq]
  | child id component =>
      rw [at?, child?_define, if_neg (by simp)]
      rfl

theorem origin_setChild (tree : ScopeTree) (id : NameId) (component : String)
    (child other : NameId) :
    ((tree.setChild id component child).name other).origin = (tree.name other).origin := by
  rw [setChild, name_recording, name_modifyName]
  split
  · next heq => rw [← heq.1]
  · rfl

theorem isJunk_setChild (tree : ScopeTree) (id : NameId) (component : String)
    (child other : NameId) :
    (tree.setChild id component child).isJunk other = tree.isJunk other := by
  rw [isJunk, NameRecord.isJunk, origin_setChild]
  rfl

/-- The tree once a name has been given a longer one. -/
def addChild (tree : ScopeTree) (id : NameId) (component : String) (record : NameRecord) :
    ScopeTree :=
  (tree.addName record).setChild id component tree.nextName

theorem child?_addChild {id : NameId} (hid : id.index < tree.names.size) (component : String)
    {record : NameRecord} (hchildren : record.children = ∅) (other : NameId) (here : String) :
    (tree.addChild id component record).child? other here =
      if id = other ∧ component = here then some tree.nextName else tree.child? other here := by
  have hsize : id.index < (tree.addName record).names.size := by
    rw [size_names_addName]
    exact Nat.lt_succ_of_lt hid
  rw [addChild, child?_setChild hsize, child?_addName _ hchildren]

theorem at?_addChild {id : NameId} (hid : id.index < tree.names.size) (component : String)
    {record : NameRecord} (hchildren : record.children = ∅) (place : Place) :
    (tree.addChild id component record).at? place =
      if .child id component = place then some (some tree.nextName) else tree.at? place := by
  cases place with
  | entry scope name =>
      rw [if_neg (by simp)]
      rfl
  | child other here =>
      simp only [at?, child?_addChild hid component hchildren, Place.child.injEq]
      split
      · rfl
      · rfl

/-! ## Steps -/

/-- What the first scope of a chain that says anything about a name says about it. -/
def nearest? (tree : ScopeTree) (chain : List ScopeId) (name : String) : Option (Option NameId) :=
  chain.findSome? fun here => tree.meaning? here name

/-- What a scope that says nothing about a name may be told about it. -/
inductive Entitled (tree : ScopeTree) (scope : ScopeId) (name : String) : Origin → Prop where
  /-- Nothing is said of the name further out. -/
  | free (habsent : tree.nearest? (tree.scope scope).enclosing name = none) :
      Entitled tree scope name (.free .any)
  /-- The scope directly outside has the name. -/
  | inherited {outer : ScopeId} {rest : List ScopeId} {source : NameId} {origin : Origin}
      (henclosing : (tree.scope scope).enclosing = outer :: rest)
      (hsource : tree.meaning? outer name = some (some source))
      (horigin : origin.source? = some source) : Entitled tree scope name origin

/-- What a run can do to the tables of a tree at a time. -/
inductive Step (before : ScopeTree) : ScopeTree → Prop where
  /-- The tables stay as they are, and a name that is new has gone wrong. -/
  | keep {after : ScopeTree} (hgrows : before.Grows after)
      (hhistory : after.history = before.history)
      (hat : ∀ place, after.at? place = before.at? place)
      (hnew : ∀ id, after.isJunk id = false → id.index < before.names.size) : Step before after
  | define {scope : ScopeId} {name : String} {origin : Origin}
      (hscope : scope.index < before.scopes.size) (hnew : before.meaning? scope name = none)
      (hentitled : before.Entitled scope name origin) : Step before (before.define scope name origin)
  | addChild {id : NameId} {component : String} {record : NameRecord}
      (hid : id.index < before.names.size) (hnew : before.child? id component = none)
      (hchildren : record.children = ∅) : Step before (before.addChild id component record)

/-- A tree comes after another one in a run. -/
def Extends : ScopeTree → ScopeTree → Prop :=
  Relation.ReflTransGen fun before after => before.Formed ∧ before.Step after

namespace Extends

theorem refl (tree : ScopeTree) : tree.Extends tree := Relation.ReflTransGen.refl

theorem trans (h : before.Extends after) (h' : after.Extends third) : before.Extends third :=
  Relation.ReflTransGen.trans h h'

theorem step (h : before.Formed) (hstep : before.Step after) : before.Extends after :=
  Relation.ReflTransGen.single ⟨h, hstep⟩

/-- What is known of names may change, as long as they keep their longer names. -/
theorem of_names (h : before.Formed) (hgrows : before.Grows after)
    (hhistory : after.history = before.history)
    (hsize : after.names.size = before.names.size) (hscopes : after.scopes = before.scopes)
    (hchild : ∀ id component, after.child? id component = before.child? id component) :
    before.Extends after := by
  refine .step h (.keep hgrows hhistory (fun place => ?_) fun id hlive => ?_)
  · cases place with
    | entry other name => rw [at?, at?, meaning?, meaning?, scope, scope, hscopes]
    | child id component => rw [at?, at?, hchild]
  · rw [← hsize]
    exact lt_size_of_not_junk hlive

theorem setIntrinsic (h : tree.Formed) {scope : ScopeId} {node : NodeId} {entry : Intrinsic}
    (hkinds : ∀ old, (tree.scope scope).intrinsics.find? node = some old →
      entry.kinds ⊆ old.kinds) : tree.Extends (tree.setIntrinsic scope node entry) := by
  refine .step h (.keep (grows_setIntrinsic hkinds) rfl (fun place => ?_) fun id hlive => ?_)
  · cases place with
    | entry other name =>
        rw [at?, at?, meaning?, meaning?]
        unfold ScopeTree.setIntrinsic
        rw [scope_modifyScope]
        split
        · next heq => rw [heq.1]
        · rfl
    | child id component => rfl
  · exact lt_size_of_not_junk hlive

theorem addJunk (h : tree.Formed) : tree.Extends (tree.addName .junk) := by
  refine .step h (.keep (grows_addName ..) rfl (fun place => ?_) fun id hlive => ?_)
  · cases place with
    | entry scope name => rfl
    | child id component => rw [at?, at?, child?_addName _ rfl]
  · rw [isJunk, name_addName] at hlive
    split at hlive
    · cases hlive
    · exact lt_size_of_not_junk hlive

end Extends

namespace Step

theorem grows (h : before.Step after) : before.Grows after := by
  cases h with
  | keep hgrows => exact hgrows
  | define _ hnew => exact grows_define hnew _
  | addChild => exact (grows_addName _ _).trans (grows_setChild _ _ _ _)

theorem child? (h : before.Step after) {id child : NameId} {component : String}
    (hchild : before.child? id component = some child) :
    after.child? id component = some child := by
  cases h with
  | keep _ _ hat _ =>
      have hsame := hat (.child id component)
      rw [at?, at?, hchild] at hsame
      exact Option.map_injective (fun _ _ => Option.some.inj) hsame
  | define => rw [child?_define, hchild]
  | addChild hid hnew hchildren =>
      rw [child?_addChild hid _ hchildren, if_neg]
      · exact hchild
      · rintro ⟨rfl, rfl⟩
        cases hnew.symm.trans hchild

end Step

namespace Extends

theorem grows (h : before.Extends after) : before.Grows after := by
  induction h with
  | refl => exact .refl _
  | tail _ hstep ih => exact ih.trans hstep.2.grows

theorem child? (h : before.Extends after) {id child : NameId} {component : String}
    (hchild : before.child? id component = some child) :
    after.child? id component = some child := by
  induction h with
  | refl => exact hchild
  | tail _ hstep ih => exact hstep.2.child? ih

end Extends

/-! ## What the history says -/

/-- The history of a tree accounts for its tables, and every name has a place of its own. -/
structure Recorded (tree : ScopeTree) : Prop where
  accounts : ∀ place, tree.history.at? place = tree.at? place
  settled : tree.history.Settled
  lt_size : ∀ place id, tree.at? place = some (some id) → id.index < tree.names.size
  unique : ∀ place other id, tree.at? place = some (some id) → tree.at? other = some (some id) →
    place = other
  placed : ∀ id, tree.isJunk id = false → ∃ place, tree.at? place = some (some id)

/-- A new name takes a place that is free. -/
theorem Recorded.take (h : before.Recorded) {place : Place} (hfree : before.at? place = none)
    (hhistory : after.history = (place, some before.nextName) :: before.history)
    (hat : ∀ other, after.at? other =
      if place = other then some (some before.nextName) else before.at? other)
    (hsize : after.names.size = before.names.size + 1)
    (hlive : ∀ id, after.isJunk id = false → id = before.nextName ∨ before.isJunk id = false) :
    after.Recorded := by
  -- whatever stands in a place is the new name, or has been there before
  have hold : ∀ other id, after.at? other = some (some id) →
      (place = other ∧ id = before.nextName) ∨
        (before.at? other = some (some id) ∧ id.index < before.names.size) := by
    intro other id hother
    rw [hat] at hother
    split at hother
    · next heq =>
      cases hother
      exact .inl ⟨heq, rfl⟩
    · exact .inr ⟨hother, h.lt_size other id hother⟩
  constructor
  case accounts =>
    intro other
    rw [hhistory, History.at?_cons, hat, h.accounts]
  case settled =>
    rw [hhistory]
    refine .cons h.settled fun old hplace => ?_
    rw [h.accounts, hfree] at hplace
    cases hplace
  case lt_size =>
    intro other id hother
    rw [hsize]
    rcases hold other id hother with ⟨-, rfl⟩ | ⟨-, hlt⟩
    · exact Nat.lt_succ_self _
    · exact Nat.lt_succ_of_lt hlt
  case unique =>
    intro first second id hfirst hsecond
    rcases hold first id hfirst with ⟨rfl, rfl⟩ | ⟨hfirst, hlt⟩
    · rcases hold second _ hsecond with ⟨rfl, -⟩ | ⟨-, hlt⟩
      · rfl
      · exact absurd hlt (Nat.lt_irrefl _)
    · rcases hold second id hsecond with ⟨-, rfl⟩ | ⟨hsecond, -⟩
      · exact absurd hlt (Nat.lt_irrefl _)
      · exact h.unique first second id hfirst hsecond
  case placed =>
    intro id hid
    rcases hlive id hid with rfl | hid
    · exact ⟨place, (hat place).trans (if_pos rfl)⟩
    · obtain ⟨other, hother⟩ := h.placed id hid
      refine ⟨other, ?_⟩
      rw [hat, if_neg]
      · exact hother
      · rintro rfl
        cases hfree.symm.trans hother

theorem Recorded.define (h : before.Recorded) {scope : ScopeId} {name : String} (origin : Origin)
    (hscope : scope.index < before.scopes.size) (hnew : before.meaning? scope name = none) :
    (before.define scope name origin).Recorded := by
  have hfree : before.at? (.entry scope name) = none := hnew
  refine h.take hfree rfl (at?_define hscope name origin) (size_names_addName ..) fun id hid => ?_
  by_cases heq : id = before.nextName
  · exact .inl heq
  · have hname : (before.define scope name origin).name id = before.name id :=
      (name_addName ..).trans (if_neg heq)
    rw [isJunk, hname] at hid
    exact .inr hid

/-- A scope may forbid a name that it has not given any meaning to. -/
theorem Recorded.forbid (h : before.Recorded) {scope : ScopeId} {name : String}
    (hscope : scope.index < before.scopes.size)
    (hnew : ∀ old, before.meaning? scope name = some old → old = none) :
    (before.forbid scope name).Recorded := by
  have hat : ∀ place, (before.forbid scope name).at? place =
      if .entry scope name = place then some none else before.at? place := by
    intro place
    cases place with
    | entry other here =>
        simp only [at?, ScopeTree.forbid, meaning?_setEntry hscope, Place.entry.injEq]
    | child id component =>
        rw [if_neg (by simp)]
        rfl
  have hold : ∀ place id, (before.forbid scope name).at? place = some (some id) →
      before.at? place = some (some id) := by
    intro place id hplace
    rw [hat] at hplace
    split at hplace
    · cases hplace
    · exact hplace
  have hhistory : (before.forbid scope name).history =
      (.entry scope name, none) :: before.history := rfl
  constructor
  case accounts =>
    intro place
    rw [hhistory, History.at?_cons, hat, h.accounts]
  case settled =>
    rw [hhistory]
    refine .cons h.settled fun old hplace => ?_
    rw [h.accounts] at hplace
    exact hnew old hplace
  case lt_size => exact fun place id hplace => h.lt_size place id (hold place id hplace)
  case unique =>
    exact fun place other id hplace hother =>
      h.unique place other id (hold place id hplace) (hold other id hother)
  case placed =>
    intro id hid
    obtain ⟨place, hplace⟩ := h.placed id hid
    refine ⟨place, ?_⟩
    rw [hat, if_neg]
    · exact hplace
    · rintro rfl
      cases hnew (some id) hplace

/-- The history accounts for the tables as long as neither changes. -/
theorem Recorded.congr (h : before.Recorded) (hhistory : after.history = before.history)
    (hat : ∀ place, after.at? place = before.at? place)
    (hnames : after.names.size = before.names.size)
    (hjunk : ∀ id, after.isJunk id = before.isJunk id) : after.Recorded := by
  constructor
  case accounts =>
    intro place
    rw [hhistory, hat, h.accounts]
  case settled => exact hhistory ▸ h.settled
  case lt_size =>
    intro place id hplace
    rw [hnames]
    exact h.lt_size place id ((hat place).symm.trans hplace)
  case unique =>
    intro place other id hplace hother
    exact h.unique place other id ((hat place).symm.trans hplace) ((hat other).symm.trans hother)
  case placed =>
    intro id hid
    obtain ⟨place, hplace⟩ := h.placed id ((hjunk id).symm.trans hid)
    exact ⟨place, (hat place).trans hplace⟩

theorem Recorded.step (h : before.Recorded) (hstep : before.Step after) : after.Recorded := by
  cases hstep with
  | keep hgrows hhistory hat hnew =>
      constructor
      case accounts =>
        intro place
        rw [hhistory, hat, h.accounts]
      case settled => exact hhistory ▸ h.settled
      case lt_size =>
        intro place id hplace
        rw [hat] at hplace
        exact Nat.lt_of_lt_of_le (h.lt_size place id hplace) hgrows.size_names
      case unique =>
        intro place other id hplace hother
        rw [hat] at hplace hother
        exact h.unique place other id hplace hother
      case placed =>
        intro id hid
        obtain ⟨place, hplace⟩ := h.placed id ((hgrows.isJunk (hnew id hid)).symm.trans hid)
        exact ⟨place, (hat place).trans hplace⟩
  | define hscope hnew _ => exact h.define _ hscope hnew
  | @addChild id component record hid hnew hchildren =>
      have hfree : before.at? (.child id component) = none := by rw [at?, hnew]; rfl
      refine h.take hfree rfl (at?_addChild hid component hchildren) ?_ fun other hother => ?_
      · rw [ScopeTree.addChild, setChild, names_recording, size_names_modifyName,
          size_names_addName]
      · by_cases heq : other = before.nextName
        · exact .inl heq
        · have hsame : (before.addChild id component record).isJunk other =
              before.isJunk other := by
            rw [ScopeTree.addChild, isJunk_setChild, isJunk, name_addName, if_neg heq]
            rfl
          exact .inr (hsame ▸ hother)

/-- The history gets longer. -/
theorem Step.history (h : before.Step after) : before.history <:+ after.history := by
  cases h with
  | keep _ hhistory _ _ => exact hhistory ▸ List.suffix_refl _
  | define => exact List.suffix_cons _ _
  | addChild => exact List.suffix_cons _ _

theorem Extends.history (h : before.Extends after) : before.history <:+ after.history := by
  induction h with
  | refl => exact List.suffix_refl _
  | tail _ hstep ih => exact ih.trans hstep.2.history

theorem Recorded.extends (h : before.Extends after) (hbefore : before.Recorded) :
    after.Recorded := by
  induction h with
  | refl => exact hbefore
  | tail _ hstep ih => exact ih.step hstep.2

/-! ## Chains of scopes -/

/-- A scope, followed by the scopes around it, if there are any. -/
def IsChain (tree : ScopeTree) : List ScopeId → Prop
  | [] => True
  | here :: outer => outer ≠ [] → (tree.scope here).enclosing = outer

theorem isChain_chain (tree : ScopeTree) (scope : ScopeId) : tree.IsChain (tree.chain scope) :=
  fun _ => rfl

theorem IsChain.tail (h : tree.Formed) {here : ScopeId} {outer : List ScopeId}
    (hchain : tree.IsChain (here :: outer)) : tree.IsChain outer := by
  cases outer with
  | nil => trivial
  | cons next rest => exact fun _ => (h.enclosing here next rest (hchain (by simp))).2

/-- The scopes around a scope were there before it. -/
theorem Formed.index_lt_of_mem (h : tree.Formed) {inner outer : ScopeId}
    (hmem : outer ∈ (tree.scope inner).enclosing) : outer.index < inner.index := by
  generalize hscopes : (tree.scope inner).enclosing = scopes at hmem
  induction scopes generalizing inner with
  | nil => cases hmem
  | cons next rest ih =>
      obtain ⟨hnext, hrest⟩ := h.enclosing inner next rest hscopes
      rcases List.mem_cons.mp hmem with rfl | hmem
      · exact hnext
      · exact Nat.lt_trans (ih hrest hmem) hnext

theorem ne_nextScope {scope : ScopeId} (h : scope.index < tree.scopes.size) :
    scope ≠ tree.nextScope := by
  rintro rfl
  exact Nat.lt_irrefl _ h

/-- The next scope to be opened is not around any scope yet. -/
theorem Formed.nextScope_not_mem_chain (h : tree.Formed) {scope : ScopeId}
    (hscope : scope.index < tree.scopes.size) : tree.nextScope ∉ tree.chain scope := by
  intro hmem
  rcases List.mem_cons.mp hmem with heq | hmem
  · exact ne_nextScope hscope heq.symm
  · exact Nat.lt_asymm hscope (h.index_lt_of_mem hmem)

/-- No scope is around itself. -/
theorem IsChain.not_mem (h : tree.Formed) {here : ScopeId} {outer : List ScopeId}
    (hchain : tree.IsChain (here :: outer)) : here ∉ outer := by
  intro hmem
  have henclosing := hchain (List.ne_nil_of_mem hmem)
  exact Nat.lt_irrefl _ (h.index_lt_of_mem (henclosing ▸ hmem))

theorem IsChain.grows (hgrows : before.Grows after) {chain : List ScopeId}
    (hchain : before.IsChain chain) : after.IsChain chain := by
  match chain with
  | [] => trivial
  | [_] => exact fun hne => absurd rfl hne
  | here :: outer :: rest =>
      have henclosing := hchain (by simp)
      intro _
      rw [(hgrows.scope here (lt_size_of_enclosing henclosing)).enclosing, henclosing]

theorem nearest?_cons (tree : ScopeTree) (here : ScopeId) (outer : List ScopeId) (name : String) :
    tree.nearest? (here :: outer) name =
      (tree.meaning? here name).or (tree.nearest? outer name) := by
  unfold nearest?
  rw [List.findSome?_cons]
  cases tree.meaning? here name <;> rfl

theorem nearest?_cons_eq_none {here : ScopeId} {outer : List ScopeId} {name : String} :
    tree.nearest? (here :: outer) name = none ↔
      tree.meaning? here name = none ∧ tree.nearest? outer name = none := by
  rw [nearest?_cons, Option.or_eq_none_iff]

/-- A scope that is told what a name means does not find out that the name is forbidden. -/
theorem Entitled.not_forbidden {scope : ScopeId} {name : String} {origin : Origin}
    {outer : List ScopeId} (h : tree.Entitled scope name origin)
    (houter : outer ≠ [] → (tree.scope scope).enclosing = outer) :
    tree.nearest? outer name ≠ some none := by
  by_cases hnil : outer = []
  · subst hnil
    exact fun h => by cases h
  · have henclosing := houter hnil
    cases h with
    | free habsent =>
        rw [← henclosing, habsent]
        exact fun h => by cases h
    | inherited hnext hsource _ =>
        rw [← henclosing, hnext, nearest?_cons, hsource]
        simp

/-- A chain of scopes goes on forbidding the names that it forbids, and no others. -/
theorem Step.forbids_iff (h : before.Formed) (hstep : before.Step after) {chain : List ScopeId}
    (hchain : before.IsChain chain) (name : String) :
    after.nearest? chain name = some none ↔ before.nearest? chain name = some none := by
  induction chain with
  | nil => exact Iff.rfl
  | cons here outer ih =>
      have ih := ih (hchain.tail h)
      rw [nearest?_cons, nearest?_cons]
      have hsame : after.meaning? here name = before.meaning? here name →
          ((after.meaning? here name).or (after.nearest? outer name) = some none ↔
            (before.meaning? here name).or (before.nearest? outer name) = some none) := by
        intro hmeaning
        rw [hmeaning]
        cases before.meaning? here name with
        | some entry => exact Iff.rfl
        | none => exact ih
      cases hstep with
      | keep _ _ hat _ => exact hsame (hat (.entry here name))
      | addChild => exact hsame rfl
      | @define scope other origin hscope hnew hentitled =>
          rw [meaning?_define hscope] at hsame ⊢
          split
          · next heq =>
            obtain ⟨rfl, rfl⟩ := heq
            rw [hnew]
            have hnot := hentitled.not_forbidden hchain
            simp [hnot]
          · next hne =>
            rw [if_neg hne] at hsame
            exact hsame rfl

theorem Extends.forbids_iff (h : before.Extends after) {chain : List ScopeId}
    (hchain : before.IsChain chain) (name : String) :
    after.nearest? chain name = some none ↔ before.nearest? chain name = some none := by
  induction h with
  | refl => exact Iff.rfl
  | tail hbefore hstep ih =>
      have hmiddle := hchain.grows (Extends.grows hbefore)
      exact (hstep.2.forbids_iff hstep.1 hmiddle name).trans ih

end ScopeTree

end FrameLang
