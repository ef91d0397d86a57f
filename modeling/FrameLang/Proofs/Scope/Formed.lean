import FrameLang.Proofs.Scope.Records

/-!
# Well-formed scope trees

A scope tree is well formed when its records refer to each other as the
operations mean them to (`ScopeTree.Formed`): what a name is inherited from is an
earlier name of the scope directly outside, and what is one component longer is
a later name of the same scope.

A tree only ever grows (`ScopeTree.Grows`): records stay where they are and what
they are, entries stay, and what is known of a name is narrowed, but never to
nothing.  Each operation of a tree comes with one lemma that says under which
conditions it keeps a tree well formed and lets it grow.
-/

namespace FrameLang

/-! ## Definitions -/

/-- The kinds that are kept with an origin. -/
def Origin.known : Origin → Kinds
  | free kinds | replaced kinds | bound _ kinds | masked _ kinds => kinds
  | delegated _ | junk => .any

/-- A set of kinds is narrowed, but not to nothing. -/
structure Kinds.Narrows (before after : Kinds) : Prop where
  subset : after ⊆ before
  nonempty : before ≠ ∅ → after ≠ ∅

/-- An origin stays what it is, and what is known with it is narrowed. -/
inductive Origin.Narrows : Origin → Origin → Prop where
  | free {before after : Kinds} (h : before.Narrows after) : Narrows (free before) (free after)
  | replaced {before after : Kinds} (h : before.Narrows after) :
      Narrows (replaced before) (replaced after)
  | bound {node : NodeId} {before after : Kinds} (h : before.Narrows after) :
      Narrows (bound node before) (bound node after)
  | masked {source : NameId} {before after : Kinds} (h : before.Narrows after) :
      Narrows (masked source before) (masked source after)
  | delegated {source : NameId} : Narrows (delegated source) (delegated source)
  | junk : Narrows junk junk

/-- A record stays what it is, while more is known of it. -/
structure NameRecord.Grows (before after : NameRecord) : Prop where
  path : after.path = before.path
  scope? : after.scope? = before.scope?
  origin : before.origin.Narrows after.origin
  mustUnbox : before.mustUnbox = true → after.mustUnbox = true

/-- A scope stays where it is, and its entries stay what they are. -/
structure Scope.Grows (before after : Scope) : Prop where
  enclosing : after.enclosing = before.enclosing
  priority : after.priority = before.priority
  delegates : after.delegates = before.delegates
  span : after.span = before.span
  entries : ∀ name entry, before.entries.find? name = some entry →
    after.entries.find? name = some entry
  intrinsics : ∀ node entry, before.intrinsics.find? node = some entry →
    ∃ entry', after.intrinsics.find? node = some entry' ∧ entry'.kinds ⊆ entry.kinds

namespace ScopeTree

/-- Records and scopes are added, and those that are there grow. -/
structure Grows (before after : ScopeTree) : Prop where
  size_names : before.names.size ≤ after.names.size
  size_scopes : before.scopes.size ≤ after.scopes.size
  name : ∀ id, id.index < before.names.size → (before.name id).Grows (after.name id)
  scope : ∀ id, id.index < before.scopes.size → (before.scope id).Grows (after.scope id)

/-- The records of a tree refer to each other as they should. -/
structure Formed (tree : ScopeTree) : Prop where
  /-- The scopes around a scope are the scope directly outside and the scopes around that. -/
  enclosing : ∀ id outer rest, (tree.scope id).enclosing = outer :: rest →
    outer.index < id.index ∧ (tree.scope outer).enclosing = rest
  entry : ∀ scope name id, tree.meaning? scope name = some (some id) →
    tree.isJunk id = false ∧ (tree.name id).scope? = some scope ∧ (tree.name id).path = name
  home : ∀ id, tree.isJunk id = false →
    ∃ scope, (tree.name id).scope? = some scope
  source : ∀ id source, (tree.name id).origin.source? = some source →
    source.index < id.index ∧ tree.isJunk source = false ∧
      (tree.name source).path = (tree.name id).path ∧
      ∃ here outer rest, (tree.name id).scope? = some here ∧
        (tree.scope here).enclosing = outer :: rest ∧ (tree.name source).scope? = some outer
  delegated : ∀ id source here, (tree.name id).origin = .delegated source →
    (tree.name id).scope? = some here → (tree.scope here).delegates = true
  masked : ∀ id source mask here, (tree.name id).origin = .masked source mask →
    (tree.name id).scope? = some here → (tree.scope here).delegates = false
  child : ∀ id component child, tree.child? id component = some child →
    id.index < child.index ∧ child.index < tree.names.size ∧
      tree.isJunk child = tree.isJunk id ∧ (tree.name child).scope? = (tree.name id).scope? ∧
      (tree.name child).path = (tree.name id).path ++ "." ++ component
  known : ∀ id, (tree.name id).origin.known ≠ ∅
  nodup_entries : ∀ id, (tree.scope id).entries.keys.Nodup
  nodup_children : ∀ id, (tree.name id).children.keys.Nodup

end ScopeTree

/-! ## What becomes of a demand -/

theorem Answer.of_settles (known demanded : Kinds) :
    (∀ node, of known demanded ≠ .define node) ∧ ∀ source, of known demanded ≠ .passOn source := by
  unfold of
  split <;> simp

namespace Origin

theorem eq_bound_of_answer {origin : Origin} {demanded : Kinds} {node : NodeId}
    (h : origin.answer demanded = .define node) : ∃ kinds, origin = .bound node kinds := by
  cases origin with
  | bound other kinds =>
      cases h
      exact ⟨kinds, rfl⟩
  | free known | replaced known | masked source known =>
      exact absurd h ((Answer.of_settles known demanded).1 node)
  | delegated source => cases h
  | junk => cases h

/-- A demand that is settled agrees with what is known. -/
theorem of_settled {origin : Origin} {demanded proven : Kinds} (hlive : origin ≠ .junk)
    (h : origin.answer demanded = .settled proven) :
    origin.known.meets demanded = true ∧ proven = origin.known ∩ demanded := by
  have hof : ∀ known, Answer.of known demanded = .settled proven →
      known.meets demanded = true ∧ proven = known ∩ demanded := by
    intro known heq
    unfold Answer.of at heq
    split at heq
    · next hmeets => exact ⟨hmeets, (Answer.settled.inj heq).symm⟩
    · cases heq
  cases origin with
  | free known | replaced known | masked source known => exact hof known h
  | bound node known => cases h
  | delegated source => cases h
  | junk => exact absurd rfl hlive

/-- What is proven is what is known once the demand has been made. -/
theorem known_of_settled {origin : Origin} {demanded proven : Kinds}
    (h : origin.answer demanded = .settled proven) : (origin.narrow demanded).known = proven := by
  by_cases hlive : origin = .junk
  · subst hlive
    exact Answer.settled.inj h
  · obtain ⟨hmeets, rfl⟩ := of_settled hlive h
    have hnarrow : origin.known.narrow demanded = origin.known ∩ demanded := if_pos hmeets
    cases origin with
    | bound node known => cases h
    | delegated source => cases h
    | junk => exact absurd rfl hlive
    | _ => exact hnarrow

/-- A demand that is refused has nothing in common with what is known. -/
theorem of_refused {origin : Origin} {demanded refused : Kinds}
    (h : origin.answer demanded = .refused refused) :
    origin.known.meets demanded = false ∧ refused = origin.known := by
  have hof : ∀ known, Answer.of known demanded = .refused refused →
      known.meets demanded = false ∧ refused = known := by
    intro known heq
    unfold Answer.of at heq
    split at heq
    · cases heq
    · next hnot => exact ⟨by simpa using hnot, (Answer.refused.inj heq).symm⟩
  cases origin with
  | free known | replaced known | masked source known => exact hof known h
  | bound node known => cases h
  | delegated source => cases h
  | junk => cases h

/-- A refusal leaves what is known as it is. -/
theorem narrow_of_refused {origin : Origin} {demanded refused : Kinds}
    (h : origin.answer demanded = .refused refused) : origin.narrow demanded = origin := by
  have hnot := (of_refused h).1
  have hsame : origin.known.narrow demanded = origin.known := if_neg (by simp [hnot])
  cases origin with
  | free known => exact congrArg free hsame
  | replaced known => exact congrArg replaced hsame
  | bound node known => exact congrArg (bound node) hsame
  | masked source mask => exact congrArg (masked source) hsame
  | delegated source => rfl
  | junk => rfl

theorem ne_delegated_of_answer {origin : Origin} {demanded : Kinds}
    (h : ∀ source, origin.answer demanded ≠ .passOn source) (source : NameId) :
    origin ≠ .delegated source := by
  rintro rfl
  exact h source rfl

theorem eq_delegated_of_answer {origin : Origin} {demanded : Kinds} {source : NameId}
    (h : origin.answer demanded = .passOn source) : origin = .delegated source := by
  cases origin with
  | delegated other =>
      cases h
      rfl
  | free known | replaced known | masked other known =>
      exact absurd h ((Answer.of_settles known demanded).2 source)
  | bound node kinds => cases h
  | junk => cases h

end Origin

/-! ## Growing -/

namespace Kinds

theorem Narrows.refl (kinds : Kinds) : kinds.Narrows kinds :=
  ⟨subset_iff.mpr fun _ h => h, fun h => h⟩

theorem subset_trans {first second third : Kinds} (h : first ⊆ second) (h' : second ⊆ third) :
    first ⊆ third := by
  rw [subset_iff] at *
  exact fun kind hkind => h' kind (h kind hkind)

theorem Narrows.trans {first second third : Kinds} (h : first.Narrows second)
    (h' : second.Narrows third) : first.Narrows third :=
  ⟨subset_trans h'.subset h.subset, fun hne => h'.nonempty (h.nonempty hne)⟩

/-- Narrowing by evidence never leaves nothing. -/
theorem narrows_narrow (known evidence : Kinds) : known.Narrows (known.narrow evidence) := by
  refine ⟨subset_iff.mpr fun kind hkind => mem_of_mem_narrow hkind, fun hne => ?_⟩
  unfold narrow
  split
  · next hmeets =>
    obtain ⟨kind, hknown, hevidence⟩ := meets_iff.mp hmeets
    exact ne_empty_iff.mpr ⟨kind, mem_inter.mpr ⟨hknown, hevidence⟩⟩
  · exact hne

end Kinds

namespace Origin

theorem Narrows.refl (origin : Origin) : origin.Narrows origin := by
  cases origin with
  | free kinds => exact .free (.refl kinds)
  | replaced kinds => exact .replaced (.refl kinds)
  | bound node kinds => exact .bound (.refl kinds)
  | masked source mask => exact .masked (.refl mask)
  | delegated source => exact .delegated
  | junk => exact .junk

theorem Narrows.trans {first second third : Origin} (h : first.Narrows second)
    (h' : second.Narrows third) : first.Narrows third := by
  cases h with
  | free h => cases h' with | free h' => exact .free (h.trans h')
  | replaced h => cases h' with | replaced h' => exact .replaced (h.trans h')
  | bound h => cases h' with | bound h' => exact .bound (h.trans h')
  | masked h => cases h' with | masked h' => exact .masked (h.trans h')
  | delegated => exact h'
  | junk => exact h'

theorem narrows_narrow (origin : Origin) (demanded : Kinds) :
    origin.Narrows (origin.narrow demanded) := by
  cases origin with
  | free kinds => exact .free (kinds.narrows_narrow demanded)
  | replaced kinds => exact .replaced (kinds.narrows_narrow demanded)
  | bound node kinds => exact .bound (kinds.narrows_narrow demanded)
  | masked source mask => exact .masked (mask.narrows_narrow demanded)
  | delegated source => exact .delegated
  | junk => exact .junk

theorem narrows_settle (origin : Origin) (proven : Kinds) :
    origin.Narrows (origin.settle proven) := by
  cases origin with
  | bound node kinds => exact .bound (kinds.narrows_narrow proven)
  | _ => exact .refl _

theorem Narrows.source? {before after : Origin} (h : before.Narrows after) :
    after.source? = before.source? := by
  cases h <;> rfl

theorem Narrows.junk_iff {before after : Origin} (h : before.Narrows after) :
    after = .junk ↔ before = .junk := by
  cases h <;> simp

theorem Narrows.delegated_iff {before after : Origin} (h : before.Narrows after)
    {source : NameId} : after = .delegated source ↔ before = .delegated source := by
  cases h <;> simp

theorem Narrows.exists_mask_iff {before after : Origin} (h : before.Narrows after)
    {source : NameId} :
    (∃ mask, after = .masked source mask) ↔ ∃ mask, before = .masked source mask := by
  cases h <;> simp

theorem Narrows.exists_bound_iff {before after : Origin} (h : before.Narrows after)
    {node : NodeId} : (∃ kinds, after = .bound node kinds) ↔ ∃ kinds, before = .bound node kinds := by
  cases h <;> simp

theorem Narrows.exists_replaced_iff {before after : Origin} (h : before.Narrows after) :
    (∃ kinds, after = .replaced kinds) ↔ ∃ kinds, before = .replaced kinds := by
  cases h <;> simp

theorem Narrows.known_ne_empty {before after : Origin} (h : before.Narrows after)
    (hne : before.known ≠ ∅) : after.known ≠ ∅ := by
  cases h with
  | free h => exact h.nonempty hne
  | replaced h => exact h.nonempty hne
  | bound h => exact h.nonempty hne
  | masked h => exact h.nonempty hne
  | delegated => exact hne
  | junk => exact hne

end Origin

namespace NameRecord

theorem Grows.refl (record : NameRecord) : record.Grows record :=
  ⟨rfl, rfl, .refl _, fun h => h⟩

theorem Grows.trans {first second third : NameRecord} (h : first.Grows second)
    (h' : second.Grows third) : first.Grows third :=
  ⟨h'.path.trans h.path, h'.scope?.trans h.scope?, h.origin.trans h'.origin,
    fun hunbox => h'.mustUnbox (h.mustUnbox hunbox)⟩

theorem isJunk_eq_false {record : NameRecord} : record.isJunk = false ↔ record.origin ≠ .junk := by
  simp [isJunk]

theorem Grows.isJunk {before after : NameRecord} (h : before.Grows after) :
    after.isJunk = before.isJunk := by
  unfold NameRecord.isJunk
  exact decide_eq_decide.mpr h.origin.junk_iff

theorem grows_afterDemand (record : NameRecord) (demanded : Kinds) (unbox : Bool) :
    record.Grows (record.afterDemand demanded unbox) := by
  unfold afterDemand
  split
  · exact .refl record
  · exact ⟨rfl, rfl, record.origin.narrows_narrow demanded, fun h => by simp [h]⟩

theorem grows_afterProof (record : NameRecord) (proven : Kinds) :
    record.Grows (record.afterProof proven) :=
  ⟨rfl, rfl, record.origin.narrows_settle proven, fun h => h⟩

theorem origin_afterDemand (record : NameRecord) (demanded : Kinds) (unbox : Bool) :
    (record.afterDemand demanded unbox).origin = record.origin.narrow demanded := by
  unfold afterDemand
  split
  · next hjunk =>
    have horigin : record.origin = .junk := of_decide_eq_true hjunk
    rw [horigin]
    rfl
  · rfl

theorem mustUnbox_afterDemand (record : NameRecord) (demanded : Kinds) (unbox : Bool) :
    (record.afterDemand demanded unbox).mustUnbox =
      (record.mustUnbox || (!record.isJunk && unbox)) := by
  unfold afterDemand
  cases record.isJunk <;> simp

@[simp] theorem children_afterDemand (record : NameRecord) (demanded : Kinds) (unbox : Bool) :
    (record.afterDemand demanded unbox).children = record.children := by
  unfold afterDemand
  split <;> rfl

end NameRecord

theorem Scope.Grows.refl (scope : Scope) : scope.Grows scope :=
  ⟨rfl, rfl, rfl, rfl, fun _ _ h => h,
    fun _ entry h => ⟨entry, h, Kinds.subset_iff.mpr fun _ h => h⟩⟩

theorem Scope.Grows.trans {first second third : Scope} (h : first.Grows second)
    (h' : second.Grows third) : first.Grows third := by
  refine ⟨h'.enclosing.trans h.enclosing, h'.priority.trans h.priority,
    h'.delegates.trans h.delegates, h'.span.trans h.span,
    fun name entry hentry => h'.entries name entry (h.entries name entry hentry), ?_⟩
  intro node entry hentry
  obtain ⟨entry', hentry', hsubset⟩ := h.intrinsics node entry hentry
  obtain ⟨entry'', hentry'', hsubset'⟩ := h'.intrinsics node entry' hentry'
  exact ⟨entry'', hentry'', Kinds.subset_trans hsubset' hsubset⟩

namespace ScopeTree

variable {tree before after third : ScopeTree}

theorem Grows.refl (tree : ScopeTree) : tree.Grows tree :=
  ⟨Nat.le_refl _, Nat.le_refl _, fun _ _ => .refl _, fun _ _ => .refl _⟩

theorem Grows.trans (h : before.Grows after) (h' : after.Grows third) : before.Grows third where
  size_names := Nat.le_trans h.size_names h'.size_names
  size_scopes := Nat.le_trans h.size_scopes h'.size_scopes
  name id hid := (h.name id hid).trans (h'.name id (Nat.lt_of_lt_of_le hid h.size_names))
  scope id hid := (h.scope id hid).trans (h'.scope id (Nat.lt_of_lt_of_le hid h.size_scopes))

theorem Grows.recording (h : before.Grows after) (place : Place) (entry : Option NameId) :
    before.Grows (after.recording place entry) :=
  ⟨h.size_names, h.size_scopes, h.name, h.scope⟩

/-- A name that is not junk is a name of the tree. -/
theorem lt_size_of_not_junk {id : NameId} (h : tree.isJunk id = false) :
    id.index < tree.names.size := by
  by_contra hge
  rw [isJunk, name_of_size_le (Nat.le_of_not_lt hge)] at h
  cases h

theorem lt_size_of_source {id source : NameId}
    (h : (tree.name id).origin.source? = some source) : id.index < tree.names.size := by
  by_contra hge
  rw [name_of_size_le (Nat.le_of_not_lt hge)] at h
  cases h

theorem lt_size_of_meaning? {scope : ScopeId} {name : String} {entry : Option NameId}
    (h : tree.meaning? scope name = some entry) : scope.index < tree.scopes.size := by
  by_contra hge
  rw [meaning?, scope_of_size_le (Nat.le_of_not_lt hge)] at h
  cases h

theorem lt_size_of_child? {id child : NameId} {component : String}
    (h : tree.child? id component = some child) : id.index < tree.names.size := by
  by_contra hge
  rw [child?, name_of_size_le (Nat.le_of_not_lt hge)] at h
  cases h

theorem Grows.isJunk (h : before.Grows after) {id : NameId} (hid : id.index < before.names.size) :
    after.isJunk id = before.isJunk id :=
  (h.name id hid).isJunk

theorem Grows.not_junk (h : before.Grows after) {id : NameId} (hid : before.isJunk id = false) :
    after.isJunk id = false := by
  rw [h.isJunk (lt_size_of_not_junk hid), hid]

theorem Grows.meaning? (h : before.Grows after) {scope : ScopeId} {name : String}
    {entry : Option NameId} (hentry : before.meaning? scope name = some entry) :
    after.meaning? scope name = some entry :=
  (h.scope scope (lt_size_of_meaning? hentry)).entries name entry hentry

/-! ## Keeping a tree well formed -/

/-- Records may come to be known better, as long as children and entries stay. -/
theorem Formed.of_grows (h : before.Formed) (hgrows : before.Grows after)
    (hnames : after.names.size = before.names.size)
    (hscopes : after.scopes.size = before.scopes.size)
    (hchildren : ∀ id, (after.name id).children = (before.name id).children)
    (hentries : ∀ id, (after.scope id).entries = (before.scope id).entries) :
    after.Formed := by
  have hchild : ∀ id component, after.child? id component = before.child? id component := by
    intro id component
    rw [child?, hchildren, child?]
  have hentry : ∀ scope name, after.meaning? scope name = before.meaning? scope name := by
    intro scope name
    rw [meaning?, hentries, meaning?]
  have hname : ∀ id, (before.name id).Grows (after.name id) := by
    intro id
    by_cases hid : id.index < before.names.size
    · exact hgrows.name id hid
    · rw [name_of_size_le (Nat.le_of_not_lt hid),
        name_of_size_le (by rw [hnames]; exact Nat.le_of_not_lt hid)]
      exact .refl _
  have hscope : ∀ id, (before.scope id).Grows (after.scope id) := by
    intro id
    by_cases hid : id.index < before.scopes.size
    · exact hgrows.scope id hid
    · rw [scope_of_size_le (Nat.le_of_not_lt hid),
        scope_of_size_le (by rw [hscopes]; exact Nat.le_of_not_lt hid)]
      exact .refl _
  have hjunk : ∀ id, after.isJunk id = before.isJunk id := fun id => (hname id).isJunk
  constructor
  case enclosing =>
    intro id outer rest henclosing
    rw [(hscope id).enclosing] at henclosing
    rw [(hscope outer).enclosing]
    exact h.enclosing id outer rest henclosing
  case entry =>
    intro scope name id hmeaning
    rw [hentry] at hmeaning
    rw [hjunk, (hname id).scope?, (hname id).path]
    exact h.entry scope name id hmeaning
  case home =>
    intro id hid
    rw [hjunk] at hid
    rw [(hname id).scope?]
    exact h.home id hid
  case source =>
    intro id source hsource
    rw [(hname id).origin.source?] at hsource
    obtain ⟨hlt, hnotjunk, hpath, here, outer, rest, hhere, henclosing, houter⟩ :=
      h.source id source hsource
    refine ⟨hlt, by rw [hjunk, hnotjunk], by rw [(hname source).path, (hname id).path, hpath],
      here, outer, rest, by rw [(hname id).scope?, hhere], by rw [(hscope here).enclosing, henclosing],
      by rw [(hname source).scope?, houter]⟩
  case delegated =>
    intro id source here horigin hhere
    rw [(hname id).scope?] at hhere
    rw [(hscope here).delegates]
    exact h.delegated id source here ((hname id).origin.delegated_iff.mp horigin) hhere
  case masked =>
    intro id source mask here horigin hhere
    obtain ⟨mask', hbefore⟩ := (hname id).origin.exists_mask_iff.mp ⟨mask, horigin⟩
    rw [(hname id).scope?] at hhere
    rw [(hscope here).delegates]
    exact h.masked id source mask' here hbefore hhere
  case child =>
    intro id component child hcomponent
    rw [hchild] at hcomponent
    rw [hnames, hjunk, hjunk, (hname child).scope?, (hname id).scope?, (hname child).path,
      (hname id).path]
    exact h.child id component child hcomponent
  case known => exact fun id => (hname id).origin.known_ne_empty (h.known id)
  case nodup_entries => exact fun id => hentries id ▸ h.nodup_entries id
  case nodup_children => exact fun id => hchildren id ▸ h.nodup_children id

theorem grows_modifyName {id : NameId} {change : NameRecord → NameRecord}
    (hgrows : (tree.name id).Grows (change (tree.name id))) :
    tree.Grows (tree.modifyName id change) := by
  refine ⟨Nat.le_of_eq (size_names_modifyName ..).symm, Nat.le_refl _, ?_, fun _ _ => .refl _⟩
  intro other _
  rw [name_modifyName]
  split
  · next heq => exact heq.1 ▸ hgrows
  · exact .refl _

/-- More may come to be known of a name. -/
theorem Formed.modifyName (h : tree.Formed) {id : NameId} {change : NameRecord → NameRecord}
    (hgrows : (tree.name id).Grows (change (tree.name id)))
    (hchildren : (change (tree.name id)).children = (tree.name id).children) :
    (tree.modifyName id change).Formed := by
  refine h.of_grows (grows_modifyName hgrows) (size_names_modifyName ..) rfl ?_ fun _ => rfl
  intro other
  rw [name_modifyName]
  split
  · next heq => rw [hchildren, heq.1]
  · rfl

/-- A record that refers to the names and scopes of a tree as a name of the tree should. -/
structure Fits (tree : ScopeTree) (record : NameRecord) : Prop where
  children : record.children = ∅
  home : record.isJunk = false → ∃ scope, record.scope? = some scope
  source : ∀ source, record.origin.source? = some source →
    tree.isJunk source = false ∧ (tree.name source).path = record.path ∧
      ∃ here outer rest, record.scope? = some here ∧
        (tree.scope here).enclosing = outer :: rest ∧ (tree.name source).scope? = some outer
  delegated : ∀ source here, record.origin = .delegated source → record.scope? = some here →
    (tree.scope here).delegates = true
  masked : ∀ source mask here, record.origin = .masked source mask → record.scope? = some here →
    (tree.scope here).delegates = false
  known : record.origin.known ≠ ∅

theorem fits_junk (tree : ScopeTree) (path : String) (scope? : Option ScopeId) :
    tree.Fits (.new path scope? .junk) := by
  have hany : Kinds.any ≠ ∅ := by decide
  refine ⟨rfl, ?_, ?_, ?_, ?_, hany⟩
  · intro h
    cases h
  · intro source h
    cases h
  · intro source here h
    cases h
  · intro source mask here h
    cases h

/-- A name that is not inherited fits into any scope. -/
theorem fits_own (tree : ScopeTree) (scope : ScopeId) (path : String) {origin : Origin}
    (hsource : origin.source? = none) (hknown : origin.known ≠ ∅) :
    tree.Fits (.new path (some scope) origin) := by
  refine ⟨rfl, fun _ => ⟨scope, rfl⟩, ?_, ?_, ?_, hknown⟩
  · intro source h
    exact absurd (hsource.symm.trans h) (by simp)
  · rintro source here rfl
    cases hsource
  · rintro source mask here rfl
    cases hsource

theorem fits_free (tree : ScopeTree) (scope : ScopeId) (path : String) :
    tree.Fits (.new path (some scope) (.free .any)) :=
  tree.fits_own scope path rfl (by decide)

theorem grows_addName (tree : ScopeTree) (record : NameRecord) :
    tree.Grows (tree.addName record) := by
  refine ⟨by simp, Nat.le_refl _, ?_, fun _ _ => .refl _⟩
  intro id hid
  rw [name_addName_of_lt _ _ hid]
  exact .refl _

theorem child?_addName (tree : ScopeTree) {record : NameRecord} (hchildren : record.children = ∅)
    (id : NameId) (component : String) :
    (tree.addName record).child? id component = tree.child? id component := by
  unfold child?
  rw [name_addName]
  split
  · next heq =>
    have hnew : tree.name tree.nextName = .junk := name_of_size_le (Nat.le_refl _)
    rw [hchildren, heq, hnew]
    rfl
  · rfl

theorem isJunk_addName_of_lt (tree : ScopeTree) (record : NameRecord) {id : NameId}
    (hid : id.index < tree.names.size) : (tree.addName record).isJunk id = tree.isJunk id := by
  rw [isJunk, name_addName_of_lt _ _ hid]
  rfl

theorem Formed.addName (h : tree.Formed) {record : NameRecord} (hfits : tree.Fits record) :
    (tree.addName record).Formed := by
  have hold : ∀ id, tree.isJunk id = false →
      (tree.addName record).name id = tree.name id := fun id hid =>
    name_addName_of_lt _ _ (lt_size_of_not_junk hid)
  constructor
  case enclosing => exact h.enclosing
  case entry =>
    intro scope name id hentry
    obtain ⟨hjunk, hrest⟩ := h.entry scope name id hentry
    rw [isJunk_addName_of_lt _ _ (lt_size_of_not_junk hjunk), hold id hjunk]
    exact ⟨hjunk, hrest⟩
  case home =>
    intro id hid
    unfold isJunk at hid
    rw [name_addName] at hid ⊢
    split at hid
    · next heq =>
      rw [if_pos heq]
      exact hfits.home hid
    · next hne =>
      rw [if_neg hne]
      exact h.home id hid
  case source =>
    intro id source hsource
    by_cases heq : id = tree.nextName
    · subst heq
      rw [name_addName_self] at hsource ⊢
      obtain ⟨hjunk, hpath, here, outer, rest, hhere, henclosing, houter⟩ :=
        hfits.source source hsource
      have hlt := lt_size_of_not_junk hjunk
      rw [hold source hjunk, isJunk_addName_of_lt _ _ hlt]
      exact ⟨hlt, hjunk, hpath, here, outer, rest, hhere, henclosing, houter⟩
    · have hsame : (tree.addName record).name id = tree.name id := by
        rw [name_addName, if_neg heq]
      rw [hsame] at hsource ⊢
      obtain ⟨hlt, hjunk, hrest⟩ := h.source id source hsource
      rw [hold source hjunk, isJunk_addName_of_lt _ _ (lt_size_of_not_junk hjunk)]
      exact ⟨hlt, hjunk, hrest⟩
  case delegated =>
    intro id source here horigin hhere
    rw [name_addName] at horigin hhere
    split at horigin
    · next heq =>
      rw [if_pos heq] at hhere
      exact hfits.delegated source here horigin hhere
    · next hne =>
      rw [if_neg hne] at hhere
      exact h.delegated id source here horigin hhere
  case masked =>
    intro id source mask here horigin hhere
    rw [name_addName] at horigin hhere
    split at horigin
    · next heq =>
      rw [if_pos heq] at hhere
      exact hfits.masked source mask here horigin hhere
    · next hne =>
      rw [if_neg hne] at hhere
      exact h.masked id source mask here horigin hhere
  case child =>
    intro id component child hchild
    rw [child?_addName _ hfits.children] at hchild
    obtain ⟨hlt, hsize, hjunk, hrest⟩ := h.child id component child hchild
    have hid := lt_size_of_child? hchild
    rw [isJunk_addName_of_lt _ _ hsize, isJunk_addName_of_lt _ _ hid,
      name_addName_of_lt _ _ hsize, name_addName_of_lt _ _ hid, size_names_addName]
    exact ⟨hlt, Nat.lt_succ_of_lt hsize, hjunk, hrest⟩
  case known =>
    intro id
    rw [name_addName]
    split
    · exact hfits.known
    · exact h.known id
  case nodup_entries => exact h.nodup_entries
  case nodup_children =>
    intro id
    rw [name_addName]
    split
    · rw [hfits.children]
      exact List.nodup_nil
    · exact h.nodup_children id

theorem grows_setChild (tree : ScopeTree) (id : NameId) (component : String) (child : NameId) :
    tree.Grows (tree.setChild id component child) :=
  (grows_modifyName ⟨rfl, rfl, .refl _, fun h => h⟩).recording _ _

theorem Formed.setChild (h : tree.Formed) {id child : NameId} {component : String}
    (hlt : id.index < child.index) (hsize : child.index < tree.names.size)
    (hjunk : tree.isJunk child = tree.isJunk id)
    (hscope : (tree.name child).scope? = (tree.name id).scope?)
    (hpath : (tree.name child).path = (tree.name id).path ++ "." ++ component) :
    (tree.setChild id component child).Formed := by
  have hid := Nat.lt_trans hlt hsize
  have hname : ∀ other, ((tree.setChild id component child).name other).path =
      (tree.name other).path ∧ ((tree.setChild id component child).name other).scope? =
        (tree.name other).scope? ∧ ((tree.setChild id component child).name other).origin =
          (tree.name other).origin := by
    intro other
    unfold ScopeTree.setChild
    rw [name_recording, name_modifyName]
    split
    · next heq => rw [← heq.1]; exact ⟨rfl, rfl, rfl⟩
    · exact ⟨rfl, rfl, rfl⟩
  have hjunk' : ∀ other, (tree.setChild id component child).isJunk other = tree.isJunk other := by
    intro other
    rw [isJunk, NameRecord.isJunk, (hname other).2.2]
    rfl
  constructor
  case enclosing => exact h.enclosing
  case entry =>
    intro scope name other hentry
    rw [hjunk', (hname other).1, (hname other).2.1]
    exact h.entry scope name other hentry
  case home =>
    intro other hother
    rw [hjunk'] at hother
    rw [(hname other).2.1]
    exact h.home other hother
  case source =>
    intro other source hsource
    rw [(hname other).2.2] at hsource
    rw [hjunk', (hname other).1, (hname other).2.1, (hname source).1, (hname source).2.1]
    exact h.source other source hsource
  case delegated =>
    intro other source here horigin hhere
    rw [(hname other).2.2] at horigin
    rw [(hname other).2.1] at hhere
    exact h.delegated other source here horigin hhere
  case masked =>
    intro other source mask here horigin hhere
    rw [(hname other).2.2] at horigin
    rw [(hname other).2.1] at hhere
    exact h.masked other source mask here horigin hhere
  case child =>
    intro other here found hfound
    rw [child?_setChild hid] at hfound
    have hnames : (tree.setChild id component child).names.size = tree.names.size :=
      size_names_modifyName ..
    rw [hnames, hjunk', hjunk', (hname found).1, (hname found).2.1, (hname other).1,
      (hname other).2.1]
    split at hfound
    · next heq =>
      obtain ⟨rfl, rfl⟩ := heq
      cases hfound
      exact ⟨hlt, hsize, hjunk, hscope, hpath⟩
    · exact h.child other here found hfound
  case known =>
    intro other
    rw [(hname other).2.2]
    exact h.known other
  case nodup_entries => exact h.nodup_entries
  case nodup_children =>
    intro other
    unfold ScopeTree.setChild
    rw [name_recording, name_modifyName]
    split
    · exact Table.nodup_keys_insert (h.nodup_children id) component child
    · exact h.nodup_children other

/-- What a scope says of a name that it has said nothing of does not disturb anything. -/
theorem grows_setEntry {scope : ScopeId} {name : String} {entry : Option NameId}
    (hnew : ∀ old, tree.meaning? scope name = some old → old = entry) :
    tree.Grows (tree.setEntry scope name entry) := by
  refine ⟨Nat.le_refl _, Nat.le_of_eq (size_scopes_modifyScope ..).symm, fun _ _ => .refl _, ?_⟩
  intro other hother
  unfold setEntry
  rw [scope_recording, scope_modifyScope]
  split
  · next heq =>
    obtain ⟨rfl, -⟩ := heq
    refine ⟨rfl, rfl, rfl, rfl, ?_,
      fun _ entry h => ⟨entry, h, Kinds.subset_iff.mpr fun _ h => h⟩⟩
    intro here old hold
    rw [Table.find?_insert]
    split
    · next hname =>
      subst hname
      rw [hnew old hold]
    · exact hold
  · exact .refl _

theorem Formed.setEntry (h : tree.Formed) {scope : ScopeId} {name : String}
    {entry : Option NameId}
    (hentry : ∀ id, entry = some id →
      tree.isJunk id = false ∧ (tree.name id).scope? = some scope ∧ (tree.name id).path = name) :
    (tree.setEntry scope name entry).Formed := by
  have hscopes : ∀ other, ((tree.setEntry scope name entry).scope other).enclosing =
      (tree.scope other).enclosing ∧ ((tree.setEntry scope name entry).scope other).delegates =
        (tree.scope other).delegates := by
    intro other
    unfold ScopeTree.setEntry
    rw [scope_recording, scope_modifyScope]
    split
    · next heq => rw [← heq.1]; exact ⟨rfl, rfl⟩
    · exact ⟨rfl, rfl⟩
  constructor
  case enclosing =>
    intro id outer rest henclosing
    rw [(hscopes id).1] at henclosing
    rw [(hscopes outer).1]
    exact h.enclosing id outer rest henclosing
  case entry =>
    intro other here id hid
    rcases meaning?_of_setEntry hid with ⟨rfl, rfl, hnew⟩ | hold
    · exact hentry id hnew
    · exact h.entry other here id hold
  case home => exact h.home
  case source =>
    intro id source hsource
    obtain ⟨hlt, hjunk, hpath, here, outer, rest, hhere, henclosing, houter⟩ :=
      h.source id source hsource
    exact ⟨hlt, hjunk, hpath, here, outer, rest, hhere, by rw [(hscopes here).1, henclosing],
      houter⟩
  case delegated =>
    intro id source here horigin hhere
    rw [(hscopes here).2]
    exact h.delegated id source here horigin hhere
  case masked =>
    intro id source mask here horigin hhere
    rw [(hscopes here).2]
    exact h.masked id source mask here horigin hhere
  case child => exact h.child
  case known => exact h.known
  case nodup_entries =>
    intro other
    unfold ScopeTree.setEntry
    rw [scope_recording, scope_modifyScope]
    split
    · exact Table.nodup_keys_insert (h.nodup_entries scope) name entry
    · exact h.nodup_entries other
  case nodup_children => exact h.nodup_children

/-- A name defined in a scope is its entry there. -/
theorem Formed.define (h : tree.Formed) {scope : ScopeId} {name : String} {origin : Origin}
    (hjunk : origin ≠ .junk) (hfits : tree.Fits (.new name (some scope) origin)) :
    (tree.define scope name origin).Formed := by
  refine (h.addName hfits).setEntry ?_
  rintro id ⟨⟩
  rw [isJunk, name_addName_self, NameRecord.isJunk_eq_false]
  exact ⟨hjunk, rfl, rfl⟩

theorem grows_define {scope : ScopeId} {name : String} (hnew : tree.meaning? scope name = none)
    (origin : Origin) : tree.Grows (tree.define scope name origin) := by
  refine (grows_addName tree _).trans (grows_setEntry ?_)
  intro old hold
  have hsame : (tree.addName (.new name (some scope) origin)).meaning? scope name =
      tree.meaning? scope name := rfl
  rw [hsame, hnew] at hold
  cases hold

/-! ## Opening scopes -/

theorem formed_empty : (∅ : ScopeTree).Formed := by
  have hname : ∀ id, (∅ : ScopeTree).name id = .junk := fun id => name_of_size_le (Nat.zero_le _)
  have hscope : ∀ id, (∅ : ScopeTree).scope id = default := fun id =>
    scope_of_size_le (Nat.zero_le _)
  have hany : Kinds.any ≠ ∅ := by decide
  constructor
  case enclosing =>
    intro id outer rest h
    rw [hscope] at h
    cases h
  case entry =>
    intro scope name id h
    rw [meaning?, hscope] at h
    cases h
  case home =>
    intro id h
    rw [isJunk, hname] at h
    cases h
  case source =>
    intro id source h
    rw [hname] at h
    cases h
  case delegated =>
    intro id source here h
    rw [hname] at h
    cases h
  case masked =>
    intro id source mask here h
    rw [hname] at h
    cases h
  case child =>
    intro id component child h
    rw [child?, hname] at h
    cases h
  case known =>
    intro id
    rw [hname]
    exact hany
  case nodup_entries =>
    intro id
    rw [hscope]
    exact List.nodup_nil
  case nodup_children =>
    intro id
    rw [hname]
    exact List.nodup_nil

theorem lt_size_of_enclosing {here outer : ScopeId} {rest : List ScopeId}
    (h : (tree.scope here).enclosing = outer :: rest) : here.index < tree.scopes.size := by
  by_contra hge
  rw [scope_of_size_le (Nat.le_of_not_lt hge)] at h
  cases h

/-- A name that has its kinds from another one stands in a scope of the tree. -/
theorem Formed.here_lt_size (h : tree.Formed) {id source : NameId} {here : ScopeId}
    (hsource : (tree.name id).origin.source? = some source)
    (hhere : (tree.name id).scope? = some here) : here.index < tree.scopes.size := by
  obtain ⟨-, -, -, here', outer, rest, hhere', henclosing, -⟩ := h.source id source hsource
  obtain rfl : here' = here := Option.some.inj (hhere'.symm.trans hhere)
  exact lt_size_of_enclosing henclosing

/-- A new scope that has no entries does not disturb anything. -/
theorem Formed.of_new_scope (h : before.Formed) (hnames : after.names = before.names)
    (hold : ∀ id, id ≠ before.nextScope →
      (after.scope id).enclosing = (before.scope id).enclosing ∧
        (after.scope id).entries = (before.scope id).entries ∧
          (after.scope id).delegates = (before.scope id).delegates)
    (hentries : (after.scope before.nextScope).entries = ∅)
    (henclosing : ∀ outer rest, (after.scope before.nextScope).enclosing = outer :: rest →
      outer.index < before.scopes.size ∧ (before.scope outer).enclosing = rest) :
    after.Formed := by
  have hname : ∀ id, after.name id = before.name id := fun id => by rw [name, hnames, name]
  have hjunk : ∀ id, after.isJunk id = before.isJunk id := fun id => by
    rw [isJunk, hname, isJunk]
  have hne : ∀ id : ScopeId, id.index < before.scopes.size → id ≠ before.nextScope := by
    rintro id hid rfl
    exact Nat.lt_irrefl _ hid
  constructor
  case enclosing =>
    intro id outer rest hid
    by_cases hnew : id = before.nextScope
    · subst hnew
      obtain ⟨hlt, houter⟩ := henclosing outer rest hid
      exact ⟨hlt, by rw [(hold outer (hne outer hlt)).1, houter]⟩
    · rw [(hold id hnew).1] at hid
      obtain ⟨hlt, houter⟩ := h.enclosing id outer rest hid
      have hsize := Nat.lt_trans hlt (lt_size_of_enclosing hid)
      exact ⟨hlt, by rw [(hold outer (hne outer hsize)).1, houter]⟩
  case entry =>
    intro scope name id hid
    by_cases hnew : scope = before.nextScope
    · rw [meaning?, hnew, hentries] at hid
      cases hid
    · rw [meaning?, (hold scope hnew).2.1] at hid
      rw [hjunk, hname]
      exact h.entry scope name id hid
  case home =>
    intro id hid
    rw [hjunk] at hid
    rw [hname]
    exact h.home id hid
  case source =>
    intro id source hsource
    rw [hname] at hsource
    obtain ⟨hlt, hlive, hpath, here, outer, rest, hhere, hhereenclosing, houter⟩ :=
      h.source id source hsource
    rw [hjunk, hname, hname]
    refine ⟨hlt, hlive, hpath, here, outer, rest, hhere, ?_, houter⟩
    rw [(hold here (hne here (lt_size_of_enclosing hhereenclosing))).1, hhereenclosing]
  case delegated =>
    intro id source here horigin hhere
    rw [hname] at horigin hhere
    have hsource : (before.name id).origin.source? = some source := by rw [horigin]; rfl
    rw [(hold here (hne here (h.here_lt_size hsource hhere))).2.2]
    exact h.delegated id source here horigin hhere
  case masked =>
    intro id source mask here horigin hhere
    rw [hname] at horigin hhere
    have hsource : (before.name id).origin.source? = some source := by rw [horigin]; rfl
    rw [(hold here (hne here (h.here_lt_size hsource hhere))).2.2]
    exact h.masked id source mask here horigin hhere
  case child =>
    intro id component child hchild
    rw [child?, hname] at hchild
    rw [hnames, hjunk, hjunk, hname, hname]
    exact h.child id component child hchild
  case known =>
    intro id
    rw [hname]
    exact h.known id
  case nodup_entries =>
    intro id
    by_cases hnew : id = before.nextScope
    · rw [hnew, hentries]
      exact List.nodup_nil
    · rw [(hold id hnew).2.1]
      exact h.nodup_entries id
  case nodup_children =>
    intro id
    rw [hname]
    exact h.nodup_children id

theorem Formed.openRoot (h : tree.Formed) (span : Span) (topLevel : Bool) :
    (tree.openRoot span topLevel).Formed := by
  refine h.of_new_scope rfl ?_ ?_ ?_
  · intro id hid
    rw [scope_openRoot, if_neg hid]
    exact ⟨rfl, rfl, rfl⟩
  · rw [scope_openRoot, if_pos rfl]
    rfl
  · intro outer rest henclosing
    rw [scope_openRoot, if_pos rfl] at henclosing
    cases henclosing

theorem Formed.openInside (h : tree.Formed) {outer : ScopeId}
    (houter : outer.index < tree.scopes.size) (span : Span) (delegates : Bool) :
    (tree.openInside outer span delegates).Formed := by
  refine h.of_new_scope rfl ?_ ?_ ?_
  · intro id hid
    rw [scope_openInside houter, if_neg hid]
    split
    · next heq => exact heq ▸ ⟨rfl, rfl, rfl⟩
    · exact ⟨rfl, rfl, rfl⟩
  · rw [scope_openInside houter, if_pos rfl]
    rfl
  · intro next rest henclosing
    rw [scope_openInside houter, if_pos rfl] at henclosing
    cases henclosing
    exact ⟨houter, rfl⟩

/-! ## Arithmetic operations -/

/-- The tree once something is known of the result of an arithmetic operation. -/
def setIntrinsic (tree : ScopeTree) (scope : ScopeId) (node : NodeId) (entry : Intrinsic) :
    ScopeTree :=
  tree.modifyScope scope fun scope =>
    { scope with intrinsics := scope.intrinsics.insert node entry }

theorem grows_setIntrinsic {scope : ScopeId} {node : NodeId} {entry : Intrinsic}
    (hkinds : ∀ old, (tree.scope scope).intrinsics.find? node = some old →
      entry.kinds ⊆ old.kinds) :
    tree.Grows (tree.setIntrinsic scope node entry) := by
  refine ⟨Nat.le_refl _, Nat.le_of_eq (size_scopes_modifyScope ..).symm, fun _ _ => .refl _, ?_⟩
  intro other hother
  unfold setIntrinsic
  rw [scope_modifyScope]
  split
  · next heq =>
    obtain ⟨rfl, -⟩ := heq
    refine ⟨rfl, rfl, rfl, rfl, fun _ _ h => h, ?_⟩
    intro here old hold
    dsimp only
    rw [Table.find?_insert]
    split
    · next hnode =>
      subst hnode
      exact ⟨entry, rfl, hkinds old hold⟩
    · exact ⟨old, hold, Kinds.subset_iff.mpr fun _ h => h⟩
  · exact .refl _

theorem Formed.setIntrinsic (h : tree.Formed) {scope : ScopeId} {node : NodeId}
    {entry : Intrinsic}
    (hkinds : ∀ old, (tree.scope scope).intrinsics.find? node = some old →
      entry.kinds ⊆ old.kinds) :
    (tree.setIntrinsic scope node entry).Formed := by
  refine h.of_grows (grows_setIntrinsic hkinds) rfl (size_scopes_modifyScope ..) (fun _ => rfl) ?_
  intro other
  unfold ScopeTree.setIntrinsic
  rw [scope_modifyScope]
  split
  · next heq => rw [heq.1]
  · rfl

end ScopeTree

end FrameLang
