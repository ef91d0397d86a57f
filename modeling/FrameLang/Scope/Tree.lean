import FrameLang.Expr
import FrameLang.Table

/-!
# Scopes and names

The constructs that define or hide names open scopes, which form a tree below the scope
of the whole unit.  Every name that a lookup reaches, and every component that it passes
through on the way, has one record in one scope.

A scope says for some names what they mean in it: its *entries*.  An entry is either a
name, or the remark that the name is forbidden.  A name that is inherited from the
enclosing scope is a record of its own, with the enclosing scope's record as its
`source`.  There are two ways to inherit.  A *delegated* name hands every demand on to
its source; a *masked* one keeps the demands to itself, in a mask, and only the mask and
the source together say which kinds are possible.

## Strategy

Scopes and names live in two arrays, and identities are positions in them.  A record
refers only to records that were there before it as its source, and only to records that
came after it as its children, so the functions that follow sources recurse on a
decreasing position and the one that follows children on an increasing one.  They check
the positions as they go; that the check never fails is a property of the trees that the
operations build.
-/

namespace FrameLang

/-- The position of a scope in its tree. -/
structure ScopeId where
  index : Nat
  deriving DecidableEq, Repr, Inhabited

/-- The position of a name in its tree. -/
structure NameId where
  index : Nat
  deriving DecidableEq, Repr, Inhabited

/-- Where a name gets its value from, with what is known of its kinds there. -/
inductive Origin where
  /-- Nothing that encloses the name defines it: the context supplies it at run time. -/
  | free (kinds : Kinds)
  /-- The value that an amending override replaces. -/
  | replaced (kinds : Kinds)
  /-- An expression of the same scope defines it. -/
  | bound (node : NodeId) (kinds : Kinds)
  /-- Inherited, with demands kept in a mask. -/
  | masked (source : NameId) (mask : Kinds)
  /-- Inherited, with demands handed on to the source. -/
  | delegated (source : NameId)
  /-- The result of a lookup that went wrong; it meets every demand. -/
  | junk
  deriving DecidableEq, Repr

namespace Origin

/-- The name that an inherited name is inherited from. -/
def source? : Origin → Option NameId
  | masked source _ | delegated source => some source
  | _ => none

/-- A word for the way in which a name came to be. -/
def label : Origin → String
  | free _ => "open"
  | replaced _ => "override"
  | bound _ _ => "bound"
  | masked _ _ => "copy-masked"
  | delegated _ => "copy-force-back"
  | junk => "junk"

end Origin

/-- What is known of one name. -/
structure NameRecord where
  /-- All components, joined by dots. -/
  path : String
  /-- The scope it belongs to; junk belongs to none. -/
  scope? : Option ScopeId
  origin : Origin
  /-- Whether some demand on this record needs the value unboxed. -/
  mustUnbox : Bool
  /-- The names one component longer, in the order in which they were first looked up. -/
  children : Table String NameId
  deriving Repr

namespace NameRecord

/-- A record on which nothing has been demanded yet. -/
def new (path : String) (scope? : Option ScopeId) (origin : Origin) : NameRecord :=
  ⟨path, scope?, origin, false, ∅⟩

/-- The record of a lookup that went wrong. -/
def junk : NameRecord := new "<junk>" none .junk

instance : Inhabited NameRecord := ⟨junk⟩

/-- True of the results of lookups that went wrong. -/
def isJunk (record : NameRecord) : Bool := record.origin = .junk

end NameRecord

/-- What is demanded of the result of an arithmetic operation. -/
structure Intrinsic where
  kinds : Kinds
  mustUnbox : Bool
  deriving DecidableEq, Repr

/-- A lexical scope. -/
structure Scope where
  /-- The scopes around it, innermost first. -/
  enclosing : List ScopeId
  /-- The scopes directly inside it, in the order in which they were opened. -/
  children : List ScopeId
  /-- Demands are made scope by scope, in ascending priority. -/
  priority : Nat
  /-- Whether the names it inherits are delegated, not masked. -/
  delegates : Bool
  topLevel : Bool
  span : Span
  /-- What names mean in this scope; a name without value is forbidden. -/
  entries : Table String (Option NameId)
  intrinsics : Table NodeId Intrinsic
  deriving Repr

namespace Scope

/-- A scope around everything. -/
def outermost (span : Span) (topLevel : Bool) : Scope where
  enclosing := []
  children := []
  priority := 2
  delegates := false
  topLevel := topLevel
  span := span
  entries := ∅
  intrinsics := ∅

instance : Inhabited Scope := ⟨outermost .nowhere false⟩

/-- A scope directly inside another one.  Its demands come after those of the scope around
it; those of a delegating scope come before those of any other scope beside it. -/
def inside (outer : Scope) (outerId : ScopeId) (span : Span) (delegates : Bool) : Scope where
  enclosing := outerId :: outer.enclosing
  children := []
  priority := outer.priority + if delegates then 1 else 2
  delegates := delegates
  topLevel := outer.topLevel
  span := span
  entries := ∅
  intrinsics := ∅

/-- The scope directly around a scope. -/
def parent? (scope : Scope) : Option ScopeId := scope.enclosing.head?

/-- The name that a name means in this scope, if it has an entry and is not forbidden. -/
def local? (scope : Scope) (name : String) : Option NameId :=
  (scope.entries.find? name).join

/-- True when a name is forbidden by this very scope. -/
def forbids (scope : Scope) (name : String) : Bool :=
  scope.entries.find? name = some none

end Scope

/-- A place in the tables of a tree, where the meaning of one component is kept. -/
inductive Place where
  /-- What a name means in a scope. -/
  | entry (scope : ScopeId) (name : String)
  /-- The name that is one component longer than another one. -/
  | child (id : NameId) (component : String)
  deriving DecidableEq, Repr

/-- What has been put into the tables of a tree, newest first.  A name without value has been
forbidden. -/
abbrev History := List (Place × Option NameId)

namespace History

/-- What a place holds after everything that has been put there. -/
def at? (history : History) (place : Place) : Option (Option NameId) :=
  (history.find? fun item => item.1 = place).map Prod.snd

/-- The name that a path leads to from the entries of a scope. -/
def find? (history : History) (scope : ScopeId) : List String → Option NameId
  | [] => none
  | first :: rest => do
      let start ← (history.at? (.entry scope first)).join
      rest.foldlM (fun id component => (history.at? (.child id component)).join) start

end History

/-- All scopes and names of one unit. -/
structure ScopeTree where
  scopes : Array Scope
  names : Array NameRecord
  /-- How the tables of the scopes and names came to be.  Nothing depends on it; it is there
  so that statements about every moment of a run can be made. -/
  history : History
  deriving Repr

namespace ScopeTree

/-- The tree without scopes. -/
def empty : ScopeTree := ⟨#[], #[], []⟩

instance : EmptyCollection ScopeTree := ⟨empty⟩
instance : Inhabited ScopeTree := ⟨empty⟩

/-! ## Reading -/

/-- A scope of the tree. -/
def scope (tree : ScopeTree) (id : ScopeId) : Scope := tree.scopes[id.index]?.getD default

/-- A name of the tree. -/
def name (tree : ScopeTree) (id : NameId) : NameRecord := tree.names[id.index]?.getD default

/-- All scopes, in the order in which they were opened. -/
def scopeIds (tree : ScopeTree) : List ScopeId := (List.range tree.scopes.size).map ScopeId.mk

/-- All names, in the order in which they were recorded. -/
def nameIds (tree : ScopeTree) : List NameId := (List.range tree.names.size).map NameId.mk

/-- A scope and the scopes around it, innermost first. -/
def chain (tree : ScopeTree) (id : ScopeId) : List ScopeId := id :: (tree.scope id).enclosing

/-- The entry of a name in a scope: absent, forbidden, or a name. -/
def meaning? (tree : ScopeTree) (scope : ScopeId) (name : String) : Option (Option NameId) :=
  (tree.scope scope).entries.find? name

/-- True of the results of lookups that went wrong. -/
def isJunk (tree : ScopeTree) (id : NameId) : Bool := (tree.name id).isJunk

/-- The record of a name one component longer, if there is one. -/
def child? (tree : ScopeTree) (id : NameId) (component : String) : Option NameId :=
  (tree.name id).children.find? component

/-- True when a scope or one around it has an entry for a name, forbidden or not. -/
def hasName (tree : ScopeTree) (scope : ScopeId) (name : String) : Bool :=
  (tree.chain scope).any fun here => (tree.meaning? here name).isSome

/-- True when a name has a child, or one that it is inherited from has. -/
def hasChild (tree : ScopeTree) (id : NameId) (component : String) : Bool :=
  (tree.child? id component).isSome ||
    match (tree.name id).origin.source? with
    | none => false
    | some source =>
        if _h : source.index < id.index then tree.hasChild source component else false
termination_by id.index

/-- The kinds that a name may still have. -/
def possible (tree : ScopeTree) (id : NameId) : Kinds :=
  match (tree.name id).origin with
  | .free kinds | .replaced kinds | .bound _ kinds => kinds
  | .masked source mask =>
      if _h : source.index < id.index then tree.possible source ∩ mask else mask
  | .delegated source =>
      if _h : source.index < id.index then tree.possible source else .any
  | .junk => .any
termination_by id.index

/-- Whether some demand needs the value of a name unboxed.  A delegated name shares its
value with the name it is inherited from. -/
def mustUnbox (tree : ScopeTree) (id : NameId) : Bool :=
  (tree.name id).mustUnbox ||
    match (tree.name id).origin with
    | .delegated source =>
        if _h : source.index < id.index then tree.mustUnbox source else false
    | _ => false
termination_by id.index

/-- A name and the names longer than it, each before the names longer than itself. -/
def descendants (tree : ScopeTree) (id : NameId) : List NameId :=
  id :: (tree.name id).children.values.flatMap fun child =>
    if _h : id.index < child.index ∧ child.index < tree.names.size then
      tree.descendants child
    else []
termination_by tree.names.size - id.index

/-- Every name of a scope: its entries in order, each before the names longer than it. -/
def allNames (tree : ScopeTree) (scope : ScopeId) : List NameId :=
  (tree.scope scope).entries.values.flatMap fun entry =>
    match entry with
    | none => []
    | some id => tree.descendants id

/-- The record that a path leads to from the entries of a scope, if everything on the way
has been recorded. -/
def find? (tree : ScopeTree) (scope : ScopeId) : List String → Option NameId
  | [] => none
  | first :: rest => do
      let start ← (tree.scope scope).local? first
      rest.foldlM tree.child? start

/-- What is demanded of an arithmetic operation, in a scope or in one around it. -/
def intrinsic? (tree : ScopeTree) (scope : ScopeId) (node : NodeId) : Option Intrinsic :=
  (tree.chain scope).findSome? fun here => (tree.scope here).intrinsics.find? node

/-- The region that a complaint about a name points to. -/
def spanOfName (tree : ScopeTree) (id : NameId) : Span :=
  match (tree.name id).scope? with
  | some scope => (tree.scope scope).span
  | none => .nowhere

/-! ## Growing -/

/-- Change one scope. -/
def modifyScope (tree : ScopeTree) (id : ScopeId) (change : Scope → Scope) : ScopeTree :=
  { tree with scopes := tree.scopes.modify id.index change }

/-- Change the record of one name. -/
def modifyName (tree : ScopeTree) (id : NameId) (change : NameRecord → NameRecord) :
    ScopeTree :=
  { tree with names := tree.names.modify id.index change }

/-- Note what is put into a place. -/
def recording (tree : ScopeTree) (place : Place) (entry : Option NameId) : ScopeTree :=
  { tree with history := (place, entry) :: tree.history }

/-- The position of the next scope. -/
def nextScope (tree : ScopeTree) : ScopeId := ⟨tree.scopes.size⟩

/-- The position of the next name. -/
def nextName (tree : ScopeTree) : NameId := ⟨tree.names.size⟩

/-- The tree with one more name, at `nextName`. -/
def addName (tree : ScopeTree) (record : NameRecord) : ScopeTree :=
  { tree with names := tree.names.push record }

/-- Say what a name means in a scope. -/
def setEntry (tree : ScopeTree) (scope : ScopeId) (name : String) (entry : Option NameId) :
    ScopeTree :=
  (tree.modifyScope scope fun scope =>
    { scope with entries := scope.entries.insert name entry }).recording (.entry scope name) entry

/-- Record a name as the child of another one. -/
def setChild (tree : ScopeTree) (id : NameId) (component : String) (child : NameId) :
    ScopeTree :=
  (tree.modifyName id fun record =>
    { record with children := record.children.insert component child }).recording
      (.child id component) (some child)

/-- Open a scope around everything, at `nextScope`. -/
def openRoot (tree : ScopeTree) (span : Span) (topLevel : Bool) : ScopeTree :=
  { tree with scopes := tree.scopes.push (.outermost span topLevel) }

/-- Open a scope directly inside another one, at `nextScope`. -/
def openInside (tree : ScopeTree) (outer : ScopeId) (span : Span) (delegates : Bool) :
    ScopeTree :=
  let grown :=
    { tree with scopes := tree.scopes.push ((tree.scope outer).inside outer span delegates) }
  grown.modifyScope outer fun scope =>
    { scope with children := scope.children ++ [tree.nextScope] }

/-- Add a record to a scope under a name of one component, at `nextName`. -/
def define (tree : ScopeTree) (scope : ScopeId) (name : String) (origin : Origin) :
    ScopeTree :=
  (tree.addName (.new name (some scope) origin)).setEntry scope name (some tree.nextName)

/-- Bind a name to an expression.  A scope that already says what the name means, be it
that it is forbidden, stays as it is. -/
def bind? (tree : ScopeTree) (scope : ScopeId) (name : String) (node : NodeId) :
    Option ScopeTree :=
  match tree.meaning? scope name with
  | some _ => none
  | none => some (tree.define scope name (.bound node .any))

/-- Give a name to the value that an amending override replaces. -/
def nameReplaced (tree : ScopeTree) (scope : ScopeId) (name : String) : ScopeTree :=
  tree.define scope name (.replaced .any)

/-- Forbid a name in a scope and in all scopes inside it. -/
def forbid (tree : ScopeTree) (scope : ScopeId) (name : String) : ScopeTree :=
  tree.setEntry scope name none

end ScopeTree

end FrameLang
