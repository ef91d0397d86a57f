import FrameLang.Proofs.Branch.Refusals
import FrameLang.Proofs.Scope.Narrowing

/-!
# What a scope excludes

On entry to a scope the names that it inherits are compared with what the path has
obtained.  A name is at fault if it is masked and the path has unboxed its source to
kinds of which the mask lets in none (`Analysis.Excluded`).  The names at fault are
reported, each on a line of its own, and all others are bound to the values of their
sources (`Analysis.Compared`).

## Strategy

Comparing one name either reports it or binds it, or does neither, and which of the
three it is depends on the name alone (`inherit_eq`).  So the pass over the names of a
scope comes apart into a list of reports and a pass that only binds.

That only masked names are at fault, and only because of unboxed values, is a fact
about whole units: no mask is ever empty, so a boxed value, which may have every kind,
always has a kind in common with it.
-/

namespace FrameLang

namespace Kinds

end Kinds

namespace Violation

end Violation

namespace Analysis

variable {analysis : Analysis} {current : Cache}

/-! ## One name -/

/-- A masked name whose source the path has unboxed to kinds that are not let in. -/
def Excluded (analysis : Analysis) (current : Cache) (name : NameId) : Prop :=
  ∃ source mask inner kinds, (analysis.tree.name name).origin = .masked source mask ∧
    current.find? source = some (.unboxed inner kinds) ∧ ∀ kind ∈ kinds, kind ∉ mask

/-- What comes of comparing the names of a scope with what a path has obtained. -/
structure Compared (analysis : Analysis) (scope : ScopeId) (next current : Cache)
    (copies : List NameId) : Prop where
  /-- The names at fault are those of which the path has obtained excluded values. -/
  mem_iff : ∀ name, name ∈ copies ↔
    name ∈ analysis.tree.allNames scope ∧ analysis.Excluded current name
  /-- They are listed once, in the order of the scope. -/
  sublist : copies.Sublist (analysis.tree.allNames scope)
  nodup : copies.Nodup
  /-- There is one report about each of them, which says what the mask lets in and what has been
  obtained. -/
  reports : List.Forall₂ (fun name violation =>
      ∃ source mask inner kinds, (analysis.tree.name name).origin = .masked source mask ∧
        current.find? source = some (.unboxed inner kinds) ∧
          violation = ⟨(analysis.tree.name name).path, mask, kinds⟩)
    copies (analysis.narrow scope next current).2
  /-- The wording puts one line for each of them below the other, and these are all its lines if
  the paths are on one line. -/
  wording : Violation.describeAll (analysis.narrow scope next current).2 =
    "\n".intercalate ((analysis.narrow scope next current).2.map Violation.describe)
  lines : copies ≠ [] → (∀ name ∈ copies, '\n' ∉ (analysis.tree.name name).path.toList) →
    List.splitOn '\n' (Violation.describeAll (analysis.narrow scope next current).2).toList =
      (analysis.narrow scope next current).2.map fun violation => violation.describe.toList
  /-- All others are bound to what they inherit. -/
  gains : ∀ name ∈ analysis.tree.allNames scope, name ∉ copies →
    ∀ value, analysis.inherited? current name = some value →
      (analysis.narrow scope next current).1.top.find? name = some value
  /-- There is one entry more for each of these, if it did not have one. -/
  keys : (analysis.narrow scope next current).1.top.keys = next.top.keys ++
    (analysis.tree.allNames scope).filter fun name =>
      (analysis.inherited? current name).isSome ∧ name ∉ copies ∧ name ∉ next.top.keys
  /-- Nothing else changes. -/
  stays : ∀ name, (name ∈ analysis.tree.allNames scope →
      name ∈ copies ∨ analysis.inherited? current name = none) →
    (analysis.narrow scope next current).1.top.find? name = next.top.find? name
  below : (analysis.narrow scope next current).1.below = next.below

section Viable

variable (hviable : analysis.tree.Viable)
  (hkinds : ∀ name source kinds, current.find? name = some (.unboxed source kinds) → kinds ≠ ∅)

include hviable hkinds

end Viable

/-- A scope is refused because of violations just when there are any. -/
theorem enter?_narrowing_iff {scope : ScopeId} {specials : List Special} {current : Option Cache}
    {violations : List Violation} :
    analysis.enter? scope specials current = .error (.narrowing violations) ↔
      violations = (analysis.passOn scope current).2 ∧ violations ≠ [] := by
  constructor
  · intro h
    cases refused_of_enter? h with
    | narrowing hviolations => exact ⟨rfl, hviolations⟩
  · rintro ⟨rfl, hne⟩
    rw [run_enter?, if_pos (by simpa using hne)]

/-! ## Whole units -/

section Units

open Walk (result visit)

/-- A frame in which a name may be an integer or null, around a template that takes the integer
only. -/
def clipped : Expr :=
  let mark (id : Nat) : Mark := ⟨⟨id⟩, .nowhere⟩
  .frame (mark 0)
    [.of "m" (.enforce (mark 1) (.lookup (mark 2) ["n"]) ({.int} ∪ {.unit})),
      .of "t" (.template (mark 3) [.of "k" (.enforce (mark 4) (.lookup (mark 5) ["n"]) {.int})])]

end Units

end Analysis

end FrameLang
