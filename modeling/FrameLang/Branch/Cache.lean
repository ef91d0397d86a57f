import FrameLang.Scope.Tree

/-!
# What is known on one path through generated code

Generated code enters scopes one inside the other.  On each path it keeps, for the names
that it has already obtained, where their values are: a `Cache`.  Every scope and every
decision about a kind adds a layer, which hides what the layers below say about the names
it has, and leaves the layers below as they are for the other paths.
-/

namespace FrameLang

/-- How generated code obtains the value of a name. -/
inductive Loadable where
  /-- By looking a dotted path up when the code runs. -/
  | lookup (path : String)
  /-- As the value that an amending override replaces. -/
  | replaced
  /-- As a value that the scope writes itself, boxed. -/
  | special (name : String) (kinds : Kinds)
  /-- As another value after a checked conversion. -/
  | unboxed (source : Loadable) (kinds : Kinds)
  deriving DecidableEq, Repr

/-- The kinds that generated code can rely on without looking at the value: a boxed value
may have every kind. -/
def Loadable.backing : Loadable → Kinds
  | unboxed _ kinds => kinds
  | _ => .any

/-- The values obtained so far on one path, in layers. -/
structure Cache where
  top : Table NameId Loadable
  /-- The layers under the top one, topmost first. -/
  below : List (Table NameId Loadable)
  deriving Repr

namespace Cache

/-- Nothing has been obtained yet. -/
def empty : Cache := ⟨∅, []⟩

instance : EmptyCollection Cache := ⟨empty⟩
instance : Inhabited Cache := ⟨empty⟩

/-- A new layer on top of a cache, or a cache of its own. -/
def layerOn : Option Cache → Cache
  | none => ∅
  | some cache => ⟨∅, cache.top :: cache.below⟩

/-- The value of a name in the topmost layer that has one. -/
def find? (cache : Cache) (name : NameId) : Option Loadable :=
  (cache.top :: cache.below).findSome? fun layer => layer.find? name

/-- True when some layer has a value for the name. -/
def contains (cache : Cache) (name : NameId) : Bool := (cache.find? name).isSome

/-- Put a value into the top layer. -/
def insert (cache : Cache) (name : NameId) (value : Loadable) : Cache :=
  { cache with top := cache.top.insert name value }

/-- The number of names in the top layer. -/
def localSize (cache : Cache) : Nat := cache.top.size

/-! ## The view as a map -/

@[simp] theorem find?_empty (name : NameId) : (∅ : Cache).find? name = none := rfl

@[simp] theorem find?_layerOn_none (name : NameId) : (layerOn none).find? name = none := rfl

@[simp] theorem find?_layerOn_some (cache : Cache) (name : NameId) :
    (layerOn (some cache)).find? name = cache.find? name := rfl

theorem find?_insert (cache : Cache) (name other : NameId) (value : Loadable) :
    (cache.insert name value).find? other =
      if name = other then some value else cache.find? other := by
  simp only [find?, insert, List.findSome?_cons, Table.find?_insert]
  by_cases h : name = other <;> simp [h]

end Cache

end FrameLang
