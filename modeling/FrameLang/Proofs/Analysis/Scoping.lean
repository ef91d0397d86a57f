import FrameLang.Proofs.Analysis.Isolation

/-!
# Kinds never influence scoping

Two units have the same outline when they differ in nothing but their literals and the
kinds that they enforce (`Expr.outline`).  Analysis opens the same scopes in both of them
and puts the same entries there; it records the same names, except for what is known of
their kinds; every lookup means the same name; and the same complaints are made about
hidden names, repeated attributes and empty lookups
(`Analysis.scoping_determined_by_outline`).

## Strategy

This is isolation with nothing outside.  The interior that everything is inside of is
sealed, since nothing leads out of it, so the two evaluations can be followed side by
side as those of units that differ inside a single construct.  Every kind is a secret
then, and what remains is what no demand can change: which entry a lookup finds, which
definition a name hands a demand on to, which nodes are under evaluation and which
lookups are being searched.

The identities of the nodes need not be distinct: the layouts agree on whichever node is
filed under an identity.
-/

namespace FrameLang

/-- The interior that everything is inside of. -/
def Interior.everything : Interior := ⟨fun _ => True, fun _ => True⟩

/-- Nothing leads out of everything. -/
theorem Interior.isSealed_everything {tree : ScopeTree} (h : tree.Formed) :
    everything.Sealed tree := by
  refine ⟨fun _ _ _ _ _ => trivial, fun _ _ _ _ _ _ => trivial, fun id node kinds horigin => ?_⟩
  have hlive : tree.isJunk id = false := by
    rw [ScopeTree.isJunk, NameRecord.isJunk_eq_false, horigin]
    simp
  obtain ⟨scope, hscope⟩ := h.home id hlive
  exact ⟨fun _ => trivial, fun _ => ⟨hlive, scope, hscope, trivial⟩⟩

/-! ## Layouts -/

namespace Survey

variable {first second : Expr} (hsame : first.outline = second.outline) (file : String)
  (topLevel : Bool)
include hsame

theorem echoes_of_outline : Echoes (ofUnit first file topLevel) (ofUnit second file topLevel) :=
  echoes_ofUnit default hsame file topLevel

/-- Units with the same outline are laid out alike. -/
theorem alike_of_outline :
    (ofUnit first file topLevel).defs.Alike .everything (ofUnit second file topLevel).defs := by
  have hechoes := echoes_of_outline hsame file topLevel
  refine ⟨fun id => ?_, hechoes.size_nodes, hechoes.bindings, hechoes.lookups, hechoes.demands⟩
  have hscope := hechoes.scope id
  have houtline := hechoes.outline id
  cases hplaced : (ofUnit first file topLevel).defs.nodes.find? id with
  | none =>
      rw [hplaced] at hscope
      rw [Option.map_eq_none_iff.mp hscope]
      exact .none
  | some placement =>
      obtain ⟨-, hid, -⟩ := found_ofUnit hplaced
      rw [hplaced] at hscope houtline
      obtain ⟨placement', hplaced', hscope'⟩ := Option.map_eq_some_iff.mp hscope
      rw [hplaced'] at houtline ⊢
      have houtline' : placement.expr.outline = placement'.expr.outline :=
        (Option.some.inj houtline).symm
      exact .some ⟨Expr.mark_eq_of_outline houtline', hscope', Expr.way_alike_of_outline houtline',
        fun houtside => absurd trivial houtside, hid, .rfl, fun _ _ => .rfl⟩

end Survey

/-! ## The outcome -/

namespace Analysis

/-- Two outcomes have the same scopes with the same entries, and the same names except for what is
known of their kinds; every node is evaluated in the same scope, every lookup means the same name,
and the same values are needed unboxed. -/
structure SameScoping (first second : Analysis) : Prop where
  size_scopes : second.tree.scopes.size = first.tree.scopes.size
  scope : ∀ id, (first.tree.scope id).Alike (second.tree.scope id)
  size_names : second.tree.names.size = first.tree.names.size
  name : ∀ id, (first.tree.name id).Alike (second.tree.name id)
  mustUnbox : ∀ name, second.mustUnbox name = first.mustUnbox name
  nameOf? : ∀ node, second.nameOf? node = first.nameOf? node
  bindingOf? : ∀ node, second.bindingOf? node = first.bindingOf? node
  scopeOf? : ∀ node, second.scopeOf? node = first.scopeOf? node
  opened? : ∀ node, second.opened? node = first.opened? node

/-- Everything that is wrong with a unit, in the order in which it is found, whether the report has
room for it or not. -/
def complaints (unit : Expr) (file : String) (options : Options) : List Finding :=
  (Evaluation.finished (Survey.ofUnit unit file options.topLevel)).reporter.seen.reverse

/-- A report counts complaints, each of them once, and keeps the first of them. -/
structure Shows (report : Report) (complaints : List Finding) : Prop where
  nodup : complaints.Nodup
  total : report.totalErrors = complaints.length
  kept : report.errors.map Diagnostic.finding = complaints.take Report.capacity

theorem shows_complaints (unit : Expr) (file : String) (options : Options) :
    Shows (analyse unit file options).report (complaints unit file options) := by
  have hcounts := (Evaluation.finished_explored unit file options.topLevel).1.counts
  rw [report_analyse]
  exact ⟨List.nodup_reverse.mpr hcounts.nodup, hcounts.total.trans List.length_reverse.symm,
    hcounts.kept⟩

section Outlines

variable {first second : Expr} (hsame : first.outline = second.outline) (file : String)
  (options : Options)
include hsame

/-- Evaluations of units with the same outline differ in nothing but kinds. -/
theorem conceals_of_outline :
    Interior.everything.Conceals (Progress.Alike .everything)
      (Evaluation.finished (Survey.ofUnit first file options.topLevel))
      (Evaluation.finished (Survey.ofUnit second file options.topLevel)) := by
  have hformed := (Survey.kept_ofUnit first file options.topLevel).formed
  have hechoes := Survey.echoes_of_outline hsame file options.topLevel
  exact Evaluation.finished_conceals (Survey.alike_of_outline hsame file options.topLevel)
    hechoes.tree hechoes.reporter hformed (Interior.isSealed_everything hformed)

theorem sameScoping_of_outline :
    SameScoping (analyse first file options) (analyse second file options) := by
  have hechoes := Survey.echoes_of_outline hsame file options.topLevel
  have hconceals := conceals_of_outline hsame file options
  have htree := hconceals.tree
  rw [← tree_analyse, ← tree_analyse] at htree
  refine ⟨htree.size_scopes, htree.scope, htree.size_names, htree.name, htree.mustUnbox,
    fun node => ?_, fun node => ?_, hechoes.scope, fun node => ?_⟩
  · rw [nameOf?_analyse, nameOf?_analyse, hconceals.own.resolved]
  · rw [bindingOf?, bindingOf?, layout_analyse, layout_analyse, hechoes.bindings]
  · rw [Analysis.opened?, Analysis.opened?, layout_analyse, layout_analyse, hechoes.opened]

end Outlines

/-- Kinds never influence scoping.

Two units may differ in their literals and in the kinds that they enforce.  Analysis finds the same
scopes, names and meanings of lookups in both of them.  Of all complaints, of which the reports show
the first, those about hidden names, repeated attributes and empty lookups are the same, in the same
order. -/
theorem scoping_determined_by_outline {first second : Expr}
    (hsame : first.outline = second.outline) (file : String) (options : Options) :
    SameScoping (analyse first file options) (analyse second file options) ∧
      Shows (analyse first file options).report (complaints first file options) ∧
      Shows (analyse second file options).report (complaints second file options) ∧
      (complaints second file options).filter (fun finding => finding.code ∈ Code.scoping) =
        (complaints first file options).filter fun finding => finding.code ∈ Code.scoping :=
  ⟨sameScoping_of_outline hsame file options, shows_complaints first file options,
    shows_complaints second file options, (conceals_of_outline hsame file options).scoping⟩

/-- A frame in which a component of an attribute is looked up, beside another attribute of the same
name, a lookup of a hidden name and one that names nothing. -/
def drilled (kinds : Kinds) : Expr :=
  let mark (id : Nat) : Mark := ⟨⟨id⟩, .point 1 (UInt32.ofNat id)⟩
  .frame (mark 0) [
    .of "x" (.enforce (mark 1) (.lookup (mark 2) ["given"]) kinds),
    .of "y" (.lookup (mark 3) ["x", "part"]),
    .of "y" (.hide (mark 4) ["x"] (.lookup (mark 5) ["x"])),
    .of "z" (.lookup (mark 6) [])]

/-- An attribute that has to be an integer is no frame.  This is reported in between of what is wrong
with the unit anyway. -/
theorem scoping_determined_by_outline_drilled :
    let frame := analyse (drilled {.frame}) "unit" .default
    let integer := analyse (drilled {.int}) "unit" .default
    (drilled {.frame}).outline = (drilled {.int}).outline ∧
      frame.report.totalErrors = 3 ∧ integer.report.totalErrors = 4 ∧
      SameScoping frame integer ∧
      ((complaints (drilled {.int}) "unit" .default).filter
        fun finding => finding.code ∈ Code.scoping).map Finding.code =
          [.duplicateAttribute, .forbiddenName, .emptyLookup] := by
  have hsame : (drilled {.frame}).outline = (drilled {.int}).outline := rfl
  obtain ⟨hscoping, -, -, hcomplaints⟩ := scoping_determined_by_outline hsame "unit" .default
  refine ⟨hsame, by decide +kernel, by decide +kernel, hscoping, ?_⟩
  rw [hcomplaints]
  decide +kernel

end Analysis

end FrameLang
