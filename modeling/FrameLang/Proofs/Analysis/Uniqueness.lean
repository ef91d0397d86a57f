import FrameLang.Proofs.Analysis.Coverage
import FrameLang.Proofs.Analysis.Surroundings
import FrameLang.Proofs.Scope.Paths

/-!
# One record for every path

At every moment of the analysis of a unit a path leads to one record of a name, if it
leads to any, and it leads to the same record from then on.  In the end every record
that has not gone wrong is led to by one path, which is the one that it tells
(`Analysis.path_determines_name`).

## Strategy

What a moment is can be said in two ways.  Between two steps of the analysis there is
a tree that can be asked (`Evaluation.Passes`).  Within a step there is only the history of
the tables, and a moment is a part of it that reaches back to the beginning: a
suffix, since the history has the newest entry first.  The tree that the walk leaves is
`Recorded`, and everything afterwards extends it, so nothing that the history has is
ever replaced.
-/

namespace FrameLang

namespace Evaluation

open ScopeM

/-- The trees that the analysis of a unit passes through: after some of the lookups, and after
some of the demands. -/
inductive Passes (surveyed : Session Layout) : ScopeTree → Prop where
  | classifying {order rest : List NodeId} (h : surveyed.defs.lookups = order ++ rest) :
      Passes surveyed (classifiedIn surveyed order).tree
  | demanding {demands rest : List Demand}
      (h : byPriority (classified surveyed).tree surveyed.defs.demands = demands ++ rest) :
      Passes surveyed ((meet surveyed.defs demands).run (classified surveyed)).2.tree

section Units

variable {unit : Expr} {file : String} {topLevel : Bool}

theorem recorded_finished (unit : Expr) (file : String) (topLevel : Bool) :
    (finished (Survey.ofUnit unit file topLevel)).tree.Recorded :=
  .extends (finished_explored unit file topLevel).2.extended
    (Survey.recorded_ofUnit unit file topLevel)

/-- What the analysis passes through comes after the walk and before the end. -/
theorem Passes.between {tree : ScopeTree} (h : Passes (Survey.ofUnit unit file topLevel) tree) :
    (Survey.ofUnit unit file topLevel).tree.Extends tree ∧
      tree.Extends (finished (Survey.ofUnit unit file topLevel)).tree := by
  obtain ⟨hclassified, hclassifying⟩ := classified_explored unit file topLevel
  have hsettling := (settledIn_explored unit file topLevel
    (Survey.ofUnit unit file topLevel).defs.lookups).2
  rw [← finished_eq, ← classified_eq] at hsettling
  -- in either phase, what is left to do leads from what is passed through to the end
  cases h with
  | @classifying order rest hlookups =>
      obtain ⟨hexplored, hadvances⟩ := classifiedIn_explored unit file topLevel order
      have hrest := (forM_explores rest hexplored fun id _ _ _ h => classify_explores h id).2
      have hend : ((rest.forM (classify (Survey.ofUnit unit file topLevel).defs)).run
          (classifiedIn (Survey.ofUnit unit file topLevel) order)).2 =
            classified (Survey.ofUnit unit file topLevel) := by
        rw [classified_eq, hlookups, classifiedIn, classifiedIn, run_forM_append]
      rw [hend] at hrest
      exact ⟨hadvances.extended, hrest.extended.trans hsettling.extended⟩
  | @demanding demands rest hdemands =>
      have hbound' : ∀ value name,
          (Survey.ofUnit unit file topLevel).defs.bindings.find? value = some name →
            name.index < (classified (Survey.ofUnit unit file topLevel)).tree.names.size :=
        fun value name hname => Nat.lt_of_lt_of_le (lt_size_of_binding unit file topLevel hname)
          hclassifying.evolves.grows.size_names
      obtain ⟨hexplored, hadvances⟩ := meet_explores hclassified hbound' demands
      obtain ⟨hexplored', hrest⟩ := meet_explores hexplored
        (fun value name hname => Nat.lt_of_lt_of_le (hbound' value name hname)
          hadvances.evolves.grows.size_names) rest
      have hchecked := (checkMasks_plain hexplored'.formed).advances
      have hend : (checkMasks.run ((meet (Survey.ofUnit unit file topLevel).defs rest).run
          ((meet (Survey.ofUnit unit file topLevel).defs demands).run
            (classified (Survey.ofUnit unit file topLevel))).2).2).2 =
              finished (Survey.ofUnit unit file topLevel) := by
        rw [finished, settle, run_bind, hdemands, meet, meet, meet, run_forM_append]
      rw [hend] at hchecked
      exact ⟨hclassifying.extended.trans hadvances.extended, hrest.extended.trans hchecked.extended⟩

end Units

end Evaluation

namespace Analysis

theorem recorded_analyse (unit : Expr) (file : String) (options : Options) :
    (analyse unit file options).tree.Recorded := by
  rw [tree_analyse]
  exact Evaluation.recorded_finished unit file options.topLevel

/-- A path leads to one record for good, and a record is led to by one path.

A moment of the run is a suffix of the history of the tables, and the tables of the trees
that can be asked agree with the history.  What a place holds at some moment it holds later
on, so a path that has led to a record leads to this record from then on.  In the end every
record that has not gone wrong is led to by exactly one path, from its own scope, and has this
path as its text; and all scopes together list every such record once. -/
theorem path_determines_name (unit : Expr) (file : String) (options : Options) :
    (∀ tree, Evaluation.Passes (Survey.ofUnit unit file options.topLevel) tree →
        tree.history <:+ (analyse unit file options).tree.history ∧
          ∀ scope path, tree.history.find? scope path = tree.find? scope path) ∧
      (∀ scope path, (analyse unit file options).tree.history.find? scope path =
        (analyse unit file options).tree.find? scope path) ∧
      (∀ earlier later : History, earlier <:+ later →
        later <:+ (analyse unit file options).tree.history →
          (∀ place entry, earlier.at? place = some entry → later.at? place = some entry) ∧
            ∀ scope path name, earlier.find? scope path = some name →
              later.find? scope path = some name) ∧
      (∀ name, (analyse unit file options).tree.isJunk name = false →
        ∃ scope path, ((analyse unit file options).tree.name name).scope? = some scope ∧
          ((analyse unit file options).tree.name name).path = ".".intercalate path ∧
          ∀ other otherPath, (analyse unit file options).tree.find? other otherPath = some name ↔
            other = scope ∧ otherPath = path) ∧
      ((analyse unit file options).tree.scopeIds.flatMap
          (analyse unit file options).tree.allNames).Perm
        ((analyse unit file options).tree.nameIds.filter fun name =>
          !(analyse unit file options).tree.isJunk name) := by
  have hformed := formed_analyse unit file options
  have hrecorded := recorded_analyse unit file options
  refine ⟨?_, hrecorded.find?_history, ?_, ?_, ScopeTree.perm_allNames hformed hrecorded⟩
  · intro tree hpasses
    obtain ⟨hbefore, hafter⟩ := hpasses.between
    rw [tree_analyse]
    have htree := ScopeTree.Recorded.extends hbefore
      (Survey.recorded_ofUnit unit file options.topLevel)
    exact ⟨hafter.history, htree.find?_history⟩
  · intro earlier later hearlier hlater
    have hsettled := hrecorded.settled.of_suffix hlater
    exact ⟨fun _ _ => hsettled.at?_of_suffix hearlier,
      fun _ _ _ => hsettled.find?_of_suffix hearlier⟩
  · intro name hlive
    obtain ⟨scope, path, hscope, hfind, hpath⟩ :=
      ScopeTree.exists_find? hformed hrecorded hlive
    refine ⟨scope, path, hscope, hpath, fun other otherPath => ⟨fun hother => ?_, ?_⟩⟩
    · exact ScopeTree.find?_unique hrecorded hother hfind
    · rintro ⟨rfl, rfl⟩
      exact hfind

end Analysis

end FrameLang
