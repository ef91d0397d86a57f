/-!
# Sets of primitive kinds

Every value of the language has exactly one `Kind`.  What analysis knows of an
expression before it runs is a set of kinds, `Kinds`, and all it ever does to
such a set is to narrow it.

`Kinds` is stored as eight bits, one for each kind.  The order of the bits is
the canonical order of the kinds: it decides how a set is read out
(`Kinds.toList`), how it is worded in a diagnostic (`Kinds.describe`), and the
order in which the branches of a dispatch are visited.

## Strategy

`Membership` is the one view of a set.  Each operation has a lemma that says what
it does to membership, and sets are equal when they have the same members
(`Kinds.ext`); later modules do not look at the bits.
-/

namespace FrameLang

/-- A primitive kind of value, in canonical order. -/
inductive Kind where
  | bool
  | float
  | frame
  | int
  | str
  | template
  | unit
  | bin
  deriving DecidableEq, Repr, Inhabited

namespace Kind

/-- Every kind, in canonical order. -/
def all : List Kind :=
  [bool, float, frame, int, str, template, unit, bin]

/-- The bit that stands for a kind. -/
def position : Kind → Fin 8
  | bool => 0
  | float => 1
  | frame => 2
  | int => 3
  | str => 4
  | template => 5
  | unit => 6
  | bin => 7

/-- The name of a kind in diagnostics. -/
def name : Kind → String
  | bool => "Bool"
  | float => "Float"
  | frame => "Frame"
  | int => "Int"
  | str => "Str"
  | template => "Template"
  | unit => "Null"
  | bin => "Bin"

/-- The word that stands for a kind where sets are written down as flags. -/
def flag : Kind → String
  | bool => "BOOL"
  | float => "FLOAT"
  | frame => "FRAME"
  | int => "INT"
  | str => "STR"
  | template => "TEMPLATE"
  | unit => "UNIT"
  | bin => "BIN"

theorem mem_all (kind : Kind) : kind ∈ all := by
  cases kind <;> decide

/-- Every bit stands for some kind. -/
theorem exists_position (bit : Nat) (hbit : bit < 8) :
    ∃ kind : Kind, kind.position.val = bit := by
  have : ∀ place : Fin 8, ∃ kind : Kind, kind.position = place := fun place =>
    match place with
    | 0 => ⟨bool, rfl⟩
    | 1 => ⟨float, rfl⟩
    | 2 => ⟨frame, rfl⟩
    | 3 => ⟨int, rfl⟩
    | 4 => ⟨str, rfl⟩
    | 5 => ⟨template, rfl⟩
    | 6 => ⟨unit, rfl⟩
    | 7 => ⟨bin, rfl⟩
  obtain ⟨kind, hkind⟩ := this ⟨bit, hbit⟩
  exact ⟨kind, by rw [hkind]⟩

end Kind

/-- A set of kinds: bit `kind.position` is set when `kind` is a member. -/
structure Kinds where
  /-- One bit for each kind. -/
  bits : BitVec 8
  deriving DecidableEq, Repr

namespace Kinds

/-! ## Operations -/

instance : Membership Kind Kinds where
  mem kinds kind := kinds.bits[kind.position] = true

instance (kind : Kind) (kinds : Kinds) : Decidable (kind ∈ kinds) :=
  inferInstanceAs (Decidable (kinds.bits[kind.position] = true))

instance : EmptyCollection Kinds := ⟨⟨0#8⟩⟩
instance : Inhabited Kinds := ⟨∅⟩
instance : Singleton Kind Kinds := ⟨fun kind => ⟨BitVec.twoPow 8 kind.position⟩⟩
instance : Union Kinds := ⟨fun first second => ⟨first.bits ||| second.bits⟩⟩
instance : Inter Kinds := ⟨fun first second => ⟨first.bits &&& second.bits⟩⟩
instance : SDiff Kinds := ⟨fun first second => ⟨first.bits &&& ~~~second.bits⟩⟩
instance : HasSubset Kinds := ⟨fun first second => first ∩ second = first⟩

instance (first second : Kinds) : Decidable (first ⊆ second) :=
  inferInstanceAs (Decidable (first ∩ second = first))

/-- Every kind. -/
def any : Kinds := ⟨BitVec.allOnes 8⟩

/-- The kinds that arithmetic works on. -/
def number : Kinds := {.int} ∪ {.float}

/-- True of the set without members. -/
def isEmpty (kinds : Kinds) : Bool := kinds = ∅

/-- True when two sets share a kind. -/
def meets (first second : Kinds) : Bool := !(first ∩ second).isEmpty

/-- The members, in canonical order. -/
def toList (kinds : Kinds) : List Kind :=
  Kind.all.filter (· ∈ kinds)

/-- The number of members. -/
def size (kinds : Kinds) : Nat := kinds.toList.length

/-- True of the sets with exactly one member. -/
def isSingleton (kinds : Kinds) : Bool := kinds.size = 1

/-- The only member of a set that has exactly one. -/
def only? (kinds : Kinds) : Option Kind :=
  match kinds.toList with
  | [kind] => some kind
  | _ => none

/-- The members joined with “or”; “nothing” for the empty set. -/
def describe (kinds : Kinds) : String :=
  if kinds.isEmpty then "nothing"
  else " or ".intercalate (kinds.toList.map Kind.name)

/-- What is known after new evidence: the kinds that agree with it, or all that was
known before when none does.  A set that is not empty never becomes empty this way. -/
def narrow (known evidence : Kinds) : Kinds :=
  if known.meets evidence then known ∩ evidence else known

/-- What the primary branch of a coalescing expression contributes.

The primary branch is asked for the kinds that are wanted or null.  When what it can
produce shares nothing with the wanted kinds, it can only be null, and the fallback
stands in for it: the wanted kinds are taken as given.  Otherwise its own kinds are
kept, null included. -/
def coalescing (produced wanted : Kinds) : Kinds :=
  if produced.isEmpty then ∅
  else if produced.meets wanted then produced
  else wanted

/-! ## Membership -/

variable {kind : Kind} {first second : Kinds}

theorem mem_def : kind ∈ first ↔ first.bits[kind.position] = true := Iff.rfl

@[ext] theorem ext (h : ∀ kind : Kind, kind ∈ first ↔ kind ∈ second) : first = second := by
  have hbits : first.bits = second.bits := by
    refine BitVec.eq_of_getElem_eq fun bit hbit => ?_
    obtain ⟨kind, hkind⟩ := Kind.exists_position bit hbit
    have hmem := h kind
    simp only [mem_def, Fin.getElem_fin] at hmem
    subst hkind
    exact Bool.eq_iff_iff.mpr hmem
  cases first
  cases second
  cases hbits
  rfl

@[simp] theorem not_mem_empty : ¬ kind ∈ (∅ : Kinds) := by
  cases kind <;> decide

@[simp] theorem mem_any : kind ∈ any := by
  cases kind <;> decide

@[simp] theorem mem_singleton {other : Kind} : kind ∈ ({other} : Kinds) ↔ kind = other := by
  cases kind <;> cases other <;> decide

@[simp] theorem mem_union : kind ∈ first ∪ second ↔ kind ∈ first ∨ kind ∈ second := by
  change (first.bits ||| second.bits)[kind.position] = true ↔ _
  simp [mem_def]

@[simp] theorem mem_inter : kind ∈ first ∩ second ↔ kind ∈ first ∧ kind ∈ second := by
  change (first.bits &&& second.bits)[kind.position] = true ↔ _
  simp [mem_def]

@[simp] theorem mem_sdiff : kind ∈ first \ second ↔ kind ∈ first ∧ ¬ kind ∈ second := by
  change (first.bits &&& ~~~second.bits)[kind.position] = true ↔ _
  simp [mem_def]

theorem subset_iff : first ⊆ second ↔ ∀ kind : Kind, kind ∈ first → kind ∈ second := by
  change first ∩ second = first ↔ _
  constructor
  · intro h kind hkind
    rw [← h, mem_inter] at hkind
    exact hkind.2
  · intro h
    ext kind
    simp only [mem_inter, and_iff_left_iff_imp]
    exact h kind

theorem eq_empty_iff : first = ∅ ↔ ∀ kind : Kind, ¬ kind ∈ first :=
  ⟨fun h kind => by simp [h], fun h => ext fun kind => by simp [h kind]⟩

@[simp] theorem isEmpty_iff : first.isEmpty = true ↔ first = ∅ := by
  simp [isEmpty]

theorem ne_empty_iff : first ≠ ∅ ↔ ∃ kind : Kind, kind ∈ first := by
  rw [ne_eq, eq_empty_iff]
  simp

theorem meets_iff :
    first.meets second = true ↔ ∃ kind : Kind, kind ∈ first ∧ kind ∈ second := by
  rw [meets, Bool.not_eq_true', ← Bool.not_eq_true, isEmpty_iff, ← ne_eq, ne_empty_iff]
  simp

@[simp] theorem mem_toList : kind ∈ first.toList ↔ kind ∈ first := by
  simp [toList, Kind.mem_all]

theorem mem_of_mem_narrow (h : kind ∈ first.narrow second) : kind ∈ first := by
  unfold narrow at h
  split at h
  · exact (mem_inter.mp h).1
  · exact h

end Kinds

end FrameLang
